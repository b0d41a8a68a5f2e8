import Mathlib.Data.Char
import Warp.Foundation.FileTreeNodes
import Warp.Foundation.KeyListing
import Warp.Foundation.Outcome
import Warp.Store.LocalBackend

/-! # Listing objects of the local backend

Directories are compared with the query before any file in them is seen, and a directory whose path
has the delimiter behind the prefix is grouped as a whole. The walk finds every other file once
(`LocalBackend.walk_spec`); what is listed is right exactly if grouping whole directories does no
harm (`LocalBackend.list_correct_iff`).
-/

namespace Warp.Store

open FileTree LexicalPath List

/-- Options for `list`. -/
structure ListOptions where
  maxKeys : ℕ := 1000
  delimiter : Option Text := none
  startAfter : Option Text := none

structure ObjectEntry where
  key : Text
  size : ℕ
  lastModified : ℕ
  etag : Text
  storageClass : StorageClass
  versionId : Option Text
  isLatest : Bool
  deriving DecidableEq

structure ObjectList where
  objects : List ObjectEntry
  commonPrefixes : List Text
  nextContinuationToken : Option Text
  isTruncated : Bool
  keyCount : ℕ
  deriving DecidableEq

namespace LocalBackend

/-- What the walk has found so far, and the directories it has still to read. -/
structure Listing where
  objects : List ObjectEntry
  commonPrefixes : List Text
  stack : List (List Name)
  panicked : Bool

def keyText (path : List Name) : Text := ['/'].intercalate path

/-- The key under which metadata is looked up; there is none for an invalid bucket name. -/
def metaKey (bucket key : Text) : Option ObjectKey :=
  match ObjectKey.new bucket key with
  | .ok made => some made
  | .error _ =>
    match ObjectKey.new bucket "unknown".toList with
    | .ok made => some made
    | .error _ => none

section Model
variable (backend : LocalBackend) (host : Host) (files : Node Bytes)
  (modified : List Name → ℕ) (bucket start : Text) (opts : ListOptions)

/-- The ETag and storage class from the metadata, if it can be read. -/
def storedMeta (key : ObjectKey) : Text × StorageClass :=
  match files.read (host.target (backend.metaPath key)) with
  | .error _ => ([], .standard)
  | .ok bytes =>
    match host.objectMetas.fromBytes bytes with
    | .error _ => ([], .standard)
    | .ok metadata => (metadata.etag, metadata.storageClass)

/-- The text of a key up to and including the first delimiter after the prefix. -/
def commonPrefix (key : Text) : Option Text :=
  opts.delimiter.bind fun delimiter =>
    (KeyListing.findText delimiter (key.drop start.length)).map fun position =>
      start ++ (key.drop start.length).take position ++ delimiter

def visit (dir : List Name) (listing : Listing) (entry : Name × Node Bytes) : Listing :=
  let path := dir ++ [entry.1]
  let key := keyText path
  let pushed : Listing :=
    match entry.2 with
    | .file _ => listing
    | .dir _ => { listing with stack := path :: listing.stack }
  if ¬ start <+: key then pushed
  else if opts.startAfter.any (fun bound => key ≤ bound) then pushed
  else
    match entry.2 with
    | .dir _ =>
      match commonPrefix start opts key with
      | some common =>
        if common ∈ listing.commonPrefixes then listing
        else { listing with commonPrefixes := listing.commonPrefixes ++ [common] }
      | none => pushed
    | .file data =>
      match metaKey bucket key with
      | none => { listing with panicked := true }
      | some objectKey =>
        let (etag, storageClass) := storedMeta backend host files objectKey
        { listing with
          objects := listing.objects ++
            [⟨key, data.length, modified path, etag, storageClass, none, true⟩] }

def dataDir : Path := join (backend.bucketPath bucket) "data".toList

def readDir (dir : List Name) : List (Name × Node Bytes) :=
  match files.find ((host.target (backend.dataDir bucket)).names ++ dir) with
  | some (.dir entries) => entries
  | _ => []

def walk : ℕ → Listing → Listing
  | 0, listing => listing
  | fuel + 1, listing =>
    match listing.stack with
    | [] => listing
    | dir :: rest =>
      walk fuel ((backend.readDir host files bucket dir).foldl
        (backend.visit host files modified bucket start opts dir)
        { listing with stack := rest })

def walkBound : ℕ :=
  match files.find (host.target (backend.dataDir bucket)).names with
  | none => 1
  | some tree => tree.nodes.length + 1

def list : Outcome BackendError ObjectList :=
  if files.exists? (host.target (backend.dataDir bucket)) = false then
    .error (.bucketNotFound bucket)
  else
    let walked := backend.walk host files modified bucket start opts
      (backend.walkBound host files bucket) ⟨[], [], [[]], false⟩
    if walked.panicked then .panic
    else
      let sorted := walked.objects.insertionSort fun first second => first.key ≤ second.key
      let objects := sorted.take opts.maxKeys
      .ok ⟨objects, walked.commonPrefixes, none, opts.maxKeys < sorted.length, objects.length⟩

end Model

def query (start : Text) (opts : ListOptions) : KeyListing.Query Char where
  beginning := start
  startAfter := opts.startAfter
  maxKeys := opts.maxKeys
  delimiter := opts.delimiter

section Visits
variable {backend : LocalBackend} {host : Host} {files : Node Bytes} {modified : List Name → ℕ}
  {bucket start : Text} {opts : ListOptions}

structure Adds (before after : Listing) (keys : List Text) (pushed : List (List Name))
    (groups : List Text) : Prop where
  objects : (after.objects.map ObjectEntry.key).Perm (before.objects.map ObjectEntry.key ++ keys)
  stack : after.stack.Perm (pushed ++ before.stack)
  common : ∀ group, group ∈ after.commonPrefixes ↔ group ∈ before.commonPrefixes ∨ group ∈ groups
  distinct : before.commonPrefixes.Nodup → after.commonPrefixes.Nodup
  panicked : after.panicked = before.panicked

theorem Adds.refl (listing : Listing) : Adds listing listing [] [] [] := by
  refine ⟨?_, .refl _, ?_, id, rfl⟩
  · rw [append_nil]
  · simp

theorem Adds.trans {first second third : Listing} {keys moreKeys : List Text}
    {pushed morePushed : List (List Name)} {groups moreGroups : List Text}
    (before : Adds first second keys pushed groups)
    (after : Adds second third moreKeys morePushed moreGroups) :
    Adds first third (keys ++ moreKeys) (pushed ++ morePushed) (groups ++ moreGroups) where
  objects := by
    rw [← append_assoc]
    exact after.objects.trans (before.objects.append_right _)
  stack := by
    refine after.stack.trans ((before.stack.append_left morePushed).trans ?_)
    rw [← append_assoc]
    exact perm_append_comm.append_right _
  common := fun group => by
    rw [after.common, before.common, mem_append, or_assoc]
  distinct := after.distinct ∘ before.distinct
  panicked := after.panicked.trans before.panicked

/-- A directory that is grouped as a whole. -/
def Blocks (start : Text) (opts : ListOptions) (path : List Name) : Prop :=
  (query start opts).Matches (keyText path) ∧ (query start opts).group? (keyText path) ≠ none
  deriving Decidable

section
variable (start : Text) (opts : ListOptions) (path : List Name)

def fileKey : Kind Bytes → List Text
  | .file _ => if (query start opts).Matches (keyText path) then [keyText path] else []
  | .dir => []

def dirGroup : Kind Bytes → List Text
  | .file _ => []
  | .dir =>
    if (query start opts).Matches (keyText path) then
      ((query start opts).group? (keyText path)).toList
    else []

def pushed : Kind Bytes → List (List Name)
  | .file _ => []
  | .dir => if Blocks start opts path then [] else [path]

end

theorem metaKey_ne_none (valid : validateBucket bucket = .ok ()) (key : Text) :
    metaKey bucket key ≠ none := by
  have unknown : ObjectKey.new bucket "unknown".toList =
      .ok ⟨bucket, "unknown".toList, valid, by decide⟩ := ObjectKey.new_eq_ok_iff.mpr ⟨rfl, rfl⟩
  unfold metaKey
  rw [unknown]
  cases ObjectKey.new bucket key with
  | ok made => nofun
  | error _ => nofun

theorem matches_iff (key : Text) : (query start opts).Matches key ↔
    start <+: key ∧ opts.startAfter.any (fun bound => key ≤ bound) = false := by
  unfold KeyListing.Query.Matches query
  cases opts.startAfter with
  | none => simp
  | some bound => simp

section Entries
variable (dir : List Name) (listing : Listing) (name : Name) (entries : List (Name × Node Bytes))

theorem visit_file_adds (valid : validateBucket bucket = .ok ()) (data : Bytes) :
    Adds listing
      (backend.visit host files modified bucket start opts dir listing (name, .file data))
      (fileKey start opts (dir ++ [name]) (.file data)) [] [] := by
  unfold visit fileKey
  dsimp only
  by_cases matching : (query start opts).Matches (keyText (dir ++ [name]))
  · obtain ⟨inside, included⟩ := (matches_iff _).mp matching
    rw [if_pos matching, if_neg (not_not.mpr inside), if_neg (Bool.eq_false_iff.mp included)]
    rcases found : metaKey bucket (keyText (dir ++ [name])) with _ | objectKey
    · exact absurd found (metaKey_ne_none valid _)
    · exact ⟨by simp, .refl _, by simp, id, rfl⟩
  · rw [if_neg matching]
    split_ifs with inside excluded
    · exact Adds.refl listing
    · exact absurd ((matches_iff _).mpr ⟨inside, Bool.eq_false_iff.mpr excluded⟩) matching
    · exact Adds.refl listing

theorem visit_dir_of_not_blocks (free : ¬ Blocks start opts (dir ++ [name])) :
    backend.visit host files modified bucket start opts dir listing (name, .dir entries) =
      { listing with stack := (dir ++ [name]) :: listing.stack } := by
  unfold visit
  dsimp only
  split_ifs with inside excluded
  · rfl
  · have matching : (query start opts).Matches (keyText (dir ++ [name])) :=
      (matches_iff _).mpr ⟨inside, Bool.eq_false_iff.mpr excluded⟩
    have ungrouped : commonPrefix start opts (keyText (dir ++ [name])) = none := by
      by_contra grouped
      exact free ⟨matching, grouped⟩
    rw [ungrouped]
  · rfl

theorem visit_dir_of_group {common : Text}
    (matching : (query start opts).Matches (keyText (dir ++ [name])))
    (group : (query start opts).group? (keyText (dir ++ [name])) = some common) :
    backend.visit host files modified bucket start opts dir listing (name, .dir entries) =
      if common ∈ listing.commonPrefixes then listing
      else { listing with commonPrefixes := listing.commonPrefixes ++ [common] } := by
  have grouping : commonPrefix start opts (keyText (dir ++ [name])) = some common := group
  obtain ⟨inside, included⟩ := (matches_iff _).mp matching
  unfold visit
  dsimp only
  rw [if_neg (not_not.mpr inside), if_neg (Bool.eq_false_iff.mp included), grouping]

theorem visit_dir_adds :
    Adds listing
      (backend.visit host files modified bucket start opts dir listing (name, .dir entries)) []
      (pushed start opts (dir ++ [name]) .dir) (dirGroup start opts (dir ++ [name]) .dir) := by
  unfold pushed dirGroup
  dsimp only
  by_cases blocked : Blocks start opts (dir ++ [name])
  · obtain ⟨common, group⟩ := Option.ne_none_iff_exists'.mp blocked.2
    rw [if_pos blocked, if_pos blocked.1, group, visit_dir_of_group dir listing name entries
      blocked.1 group]
    split_ifs with known
    · refine ⟨by rw [append_nil], .refl _, fun other => ?_, id, rfl⟩
      rw [Option.toList_some, mem_singleton]
      exact (or_iff_left_of_imp fun same => same ▸ known).symm
    · refine ⟨by rw [append_nil], .refl _, fun other => ?_, fun distinct => ?_, rfl⟩
      · exact mem_append
      · have longer := distinct.concat known
        rwa [concat_eq_append] at longer
  · rw [if_neg blocked, visit_dir_of_not_blocks dir listing name entries blocked]
    refine ⟨by rw [append_nil], .refl _, fun other => ?_, id, rfl⟩
    split_ifs with matching
    · have ungrouped : (query start opts).group? (keyText (dir ++ [name])) = none := by
        by_contra grouped
        exact blocked ⟨matching, grouped⟩
      simp [ungrouped]
    · simp

theorem visit_adds (valid : validateBucket bucket = .ok ()) (dir : List Name) (listing : Listing)
    (entry : Name × Node Bytes) :
    Adds listing (backend.visit host files modified bucket start opts dir listing entry)
      (fileKey start opts (dir ++ [entry.1]) entry.2.kind)
      (pushed start opts (dir ++ [entry.1]) entry.2.kind)
      (dirGroup start opts (dir ++ [entry.1]) entry.2.kind) := by
  obtain ⟨name, node⟩ := entry
  cases node with
  | file data => exact visit_file_adds dir listing name valid data
  | dir entries => exact visit_dir_adds dir listing name entries

end Entries

theorem foldl_visit_adds (valid : validateBucket bucket = .ok ()) (dir : List Name)
    (listing : Listing) (entries : List (Name × Node Bytes)) :
    Adds listing
      (entries.foldl (backend.visit host files modified bucket start opts dir) listing)
      (entries.flatMap fun entry => fileKey start opts (dir ++ [entry.1]) entry.2.kind)
      (entries.flatMap fun entry => pushed start opts (dir ++ [entry.1]) entry.2.kind)
      (entries.flatMap fun entry => dirGroup start opts (dir ++ [entry.1]) entry.2.kind) := by
  induction entries generalizing listing with
  | nil => exact Adds.refl listing
  | cons entry rest ih => exact (visit_adds valid dir listing entry).trans (ih _)

end Visits

variable {path : List Name}

section Walk
variable {start : Text} {opts : ListOptions} (dir : List Name)

/-- No directory on the way to a path below another one is grouped. -/
def clear (start : Text) (opts : ListOptions) (dir : List Name) : List Name → Bool
  | [] => true
  | [_] => true
  | name :: next :: rest =>
    ¬ Blocks start opts (dir ++ [name]) ∧ clear start opts (dir ++ [name]) (next :: rest)

/-- What is picked from the nodes below a directory that the walk comes to. -/
def gather (start : Text) (opts : ListOptions) (pick : List Name → Kind Bytes → List Text)
    (dir : List Name) (node : Node Bytes) : List Text :=
  node.nodes.flatMap fun below =>
    if clear start opts dir below.1 then pick (dir ++ below.1) below.2 else []

def gatherAt (start : Text) (opts : ListOptions) (pick : List Name → Kind Bytes → List Text)
    (tree : Node Bytes) (dir : List Name) : List Text :=
  match tree.find dir with
  | none => []
  | some node => gather start opts pick dir node

def entriesAt (tree : Node Bytes) (dir : List Name) : List (Name × Node Bytes) :=
  match tree.find dir with
  | some (.dir entries) => entries
  | _ => []

theorem clear_cons (name : Name) {rest : List Name} (more : rest ≠ []) :
    clear start opts dir (name :: rest) = true ↔
      ¬ Blocks start opts (dir ++ [name]) ∧ clear start opts (dir ++ [name]) rest = true := by
  cases rest with
  | nil => exact absurd rfl more
  | cons next others =>
    rw [clear]
    exact decide_eq_true_iff

variable (pick : List Name → Kind Bytes → List Text) {tree : Node Bytes}

theorem gather_file (data : Bytes) :
    gather start opts pick dir (.file data) = [] := by
  rw [gather, Node.nodes_file, flatMap_nil]

theorem gatherAt_of_find {node : Node Bytes} (found : tree.find path = some node) :
    gatherAt start opts pick tree path = gather start opts pick path node := by
  rw [gatherAt, found]

theorem flatMap_pushed {node : Node Bytes} (found : tree.find path = some node) :
    (pushed start opts path node.kind).flatMap (gatherAt start opts pick tree) =
      if Blocks start opts path then [] else gather start opts pick path node := by
  cases node with
  | file data => rw [gather_file, ite_self]; rfl
  | dir entries =>
    rw [Node.kind, pushed]
    split_ifs
    · rfl
    · rw [flatMap_singleton, gatherAt_of_find pick found]

theorem gather_entry (entry : Name × Node Bytes) :
    ((Node.nodesOfEntry entry).flatMap fun below =>
      if clear start opts dir below.1 then pick (dir ++ below.1) below.2 else []) =
    pick (dir ++ [entry.1]) entry.2.kind ++
      if Blocks start opts (dir ++ [entry.1]) then []
      else gather start opts pick (dir ++ [entry.1]) entry.2 := by
  rw [Node.nodesOfEntry_eq, flatMap_cons, flatMap_map, if_pos (by rw [clear])]
  congr 1
  by_cases blocked : Blocks start opts (dir ++ [entry.1])
  · rw [if_pos blocked, flatMap_eq_nil_iff]
    rintro ⟨rest, kind⟩ member
    rw [if_neg]
    rw [clear_cons dir entry.1 (Node.ne_nil_of_mem_nodes member)]
    exact fun open' => open'.1 blocked
  · rw [if_neg blocked, gather]
    refine flatMap_congr ?_
    rintro ⟨rest, kind⟩ member
    have same : clear start opts dir (entry.1 :: rest) =
        clear start opts (dir ++ [entry.1]) rest := by
      rw [Bool.eq_iff_iff, clear_cons dir entry.1 (Node.ne_nil_of_mem_nodes member)]
      exact and_iff_right blocked
    simp [same]

variable (start opts) in
/-- What is picked in a directory: from its entries, and below those that are read later. -/
theorem gatherAt_perm (distinct : tree.Distinct) (dir : List Name) :
    (gatherAt start opts pick tree dir).Perm
      (((entriesAt tree dir).flatMap fun entry => pick (dir ++ [entry.1]) entry.2.kind) ++
        ((entriesAt tree dir).flatMap fun entry =>
          pushed start opts (dir ++ [entry.1]) entry.2.kind).flatMap
            (gatherAt start opts pick tree)) := by
  unfold entriesAt
  cases found : tree.find dir with
  | none =>
    rw [gatherAt, found]
    exact .refl _
  | some node =>
    cases node with
    | file data =>
      rw [gatherAt, found]
      dsimp only
      rw [gather_file]
      exact .refl _
    | dir entries =>
      have later (entry : Name × Node Bytes) (member : entry ∈ entries) :
          tree.find (dir ++ [entry.1]) = some entry.2 := by
        rw [Node.find_append, found]
        exact (distinct.of_find found).find_of_mem member
      rw [gatherAt_of_find pick found, gather, Node.nodes_dir, flatMap_assoc, flatMap_assoc]
      simp only [gather_entry]
      rw [flatMap_congr fun entry member =>
        congrArg _ (flatMap_pushed pick (later entry member)).symm]
      exact (flatMap_append_perm _ _ _).symm

def cost (tree : Node Bytes) (dir : List Name) : ℕ :=
  match tree.find dir with
  | none => 1
  | some node => node.nodes.length + 1

theorem cost_pos (tree : Node Bytes) (dir : List Name) : 0 < cost tree dir := by
  unfold cost
  split <;> omega

theorem sum_cost_pushed_le {node : Node Bytes} (found : tree.find path = some node) :
    ((pushed start opts path node.kind).map (cost tree)).sum ≤ node.nodes.length + 1 := by
  cases node with
  | file data => exact Nat.zero_le _
  | dir entries =>
    rw [Node.kind, pushed]
    split_ifs
    · exact Nat.zero_le _
    · rw [map_singleton, sum_singleton, cost, found]

variable (start opts) in
/-- What is read later in a directory takes fewer steps than the directory. -/
theorem sum_cost_lt (distinct : tree.Distinct) (dir : List Name) :
    (((entriesAt tree dir).flatMap fun entry =>
      pushed start opts (dir ++ [entry.1]) entry.2.kind).map (cost tree)).sum < cost tree dir := by
  unfold entriesAt
  split
  · next entries found =>
    have total : (((entries.flatMap fun entry =>
        pushed start opts (dir ++ [entry.1]) entry.2.kind).map (cost tree)).sum) ≤
        (Node.dir entries).nodes.length := by
      rw [Node.nodes_dir, length_flatMap, map_flatMap, List.flatMap, sum_flatten, map_map]
      refine sum_le_sum fun entry member => ?_
      rw [Node.nodesOfEntry_eq, length_cons, length_map]
      refine sum_cost_pushed_le ?_
      rw [Node.find_append, found]
      exact (distinct.of_find found).find_of_mem member
    rw [cost, found]
    exact Nat.lt_succ_of_le total
  · exact cost_pos tree dir

variable {backend : LocalBackend} {host : Host} {files tree : Node Bytes}
  {modified : List Name → ℕ} {bucket : Text}

theorem readDir_eq (found : files.find (host.target (backend.dataDir bucket)).names = some tree)
    (dir : List Name) : backend.readDir host files bucket dir = entriesAt tree dir := by
  unfold readDir entriesAt
  rw [Node.find_append, found]
  rfl

theorem stack_eq_nil_of_sum {stack : List (List Name)}
    (nothing : (stack.map (cost tree)).sum = 0) : stack = [] := by
  cases stack with
  | nil => rfl
  | cons dir rest =>
    rw [map_cons, sum_cons] at nothing
    have positive := cost_pos tree dir
    omega

variable (start opts tree) in
theorem adds_of_stack_eq_nil {listing : Listing} (empty : listing.stack = []) :
    Adds { listing with stack := [] } listing
      (listing.stack.flatMap (gatherAt start opts (fileKey start opts) tree)) []
      (listing.stack.flatMap (gatherAt start opts (dirGroup start opts) tree)) := by
  have same : { listing with stack := [] } = listing := by rw [← empty]
  rw [same, empty]
  exact Adds.refl listing

theorem Adds.after_step {listing next result : Listing} {dir : List Name}
    {rest : List (List Name)}
    (later : Adds { next with stack := [] } result
      (next.stack.flatMap (gatherAt start opts (fileKey start opts) tree)) []
      (next.stack.flatMap (gatherAt start opts (dirGroup start opts) tree)))
    (step : Adds { listing with stack := rest } next
      ((entriesAt tree dir).flatMap fun entry =>
        fileKey start opts (dir ++ [entry.1]) entry.2.kind)
      ((entriesAt tree dir).flatMap fun entry =>
        pushed start opts (dir ++ [entry.1]) entry.2.kind)
      ((entriesAt tree dir).flatMap fun entry =>
        dirGroup start opts (dir ++ [entry.1]) entry.2.kind)) (distinct : tree.Distinct) :
    Adds { listing with stack := [] } result
      ((dir :: rest).flatMap (gatherAt start opts (fileKey start opts) tree)) []
      ((dir :: rest).flatMap (gatherAt start opts (dirGroup start opts) tree)) where
  objects := by
    have here := gatherAt_perm start opts (fileKey start opts) distinct dir
    have stack := step.stack.flatMap_right (gatherAt start opts (fileKey start opts) tree)
    rw [flatMap_append] at stack
    rw [flatMap_cons]
    refine later.objects.trans ((step.objects.append stack).trans ?_)
    rw [append_assoc]
    refine Perm.append_left _ ?_
    rw [← append_assoc]
    exact here.symm.append_right _
  stack := later.stack
  common := fun group => by
    have here := (gatherAt_perm start opts (dirGroup start opts) distinct dir).mem_iff (a := group)
    have stack := (step.stack.flatMap_right
      (gatherAt start opts (dirGroup start opts) tree)).mem_iff (a := group)
    rw [flatMap_append, mem_append] at stack
    rw [mem_append] at here
    rw [later.common, flatMap_cons, mem_append, here, stack]
    dsimp only
    rw [step.common, or_assoc, or_assoc]
  distinct := later.distinct ∘ step.distinct
  panicked := later.panicked.trans step.panicked

variable (start opts modified) in
/-- **The walk** finds every file that is in no grouped directory, and the groups of the first
grouped directories on the way to the others. -/
theorem walk_spec (valid : validateBucket bucket = .ok ()) (distinct : tree.Distinct)
    (found : files.find (host.target (backend.dataDir bucket)).names = some tree)
    (listing : Listing) {fuel : ℕ} (enough : (listing.stack.map (cost tree)).sum ≤ fuel) :
    Adds { listing with stack := [] }
      (backend.walk host files modified bucket start opts fuel listing)
      (listing.stack.flatMap (gatherAt start opts (fileKey start opts) tree)) []
      (listing.stack.flatMap (gatherAt start opts (dirGroup start opts) tree)) := by
  induction fuel generalizing listing with
  | zero => exact adds_of_stack_eq_nil start opts tree (stack_eq_nil_of_sum (Nat.le_zero.mp enough))
  | succ fuel ih =>
    rw [walk]
    cases pending : listing.stack with
    | nil =>
      have done := adds_of_stack_eq_nil start opts tree pending
      rwa [pending] at done
    | cons dir rest =>
      dsimp only
      rw [readDir_eq found]
      have step : Adds { listing with stack := rest } ((entriesAt tree dir).foldl
          (backend.visit host files modified bucket start opts dir)
          { listing with stack := rest }) _ _ _ :=
        foldl_visit_adds valid dir { listing with stack := rest } (entriesAt tree dir)
      have enoughLater := (step.stack.map (cost tree)).sum_eq
      rw [map_append, sum_append] at enoughLater
      dsimp only at enoughLater
      rw [pending, map_cons, sum_cons] at enough
      have fewer := sum_cost_lt start opts distinct dir
      exact (ih _ (by omega)).after_step step distinct

end Walk

section Found
variable {start : Text} {opts : ListOptions} {tree : Node Bytes} {kind : Kind Bytes} {group : Text}

def storedKeys (tree : Node Bytes) : Finset Text :=
  ((tree.nodes.filter fun below => below.2 ≠ .dir).map fun below => keyText below.1).toFinset

/-- A directory of the tree, by its path as text. -/
def IsDirectory (tree : Node Bytes) (directory : Text) : Prop :=
  ∃ path, path ≠ [] ∧ tree.look path = some .dir ∧ directory = keyText path

/-- A directory is on the way to a key. -/
def OnTheWay (directory key : Text) : Prop := directory ++ ['/'] <+: key

/-- All entries have names of files. -/
def WellNamed (tree : Node Bytes) : Prop :=
  ∀ below ∈ tree.nodes, ∀ name ∈ below.1, IsName name
  deriving Decidable

theorem clear_iff (dir path : List Name) : clear start opts dir path = true ↔
    ∀ front, front <+: path → front ≠ [] → front ≠ path → ¬ Blocks start opts (dir ++ front) := by
  induction path generalizing dir with
  | nil =>
    rw [clear]
    exact iff_of_true rfl fun front beginning named => absurd (prefix_nil.mp beginning) named
  | cons name rest ih =>
    by_cases more : rest = []
    · subst more
      rw [clear]
      refine iff_of_true rfl fun front beginning named different => absurd ?_ different
      exact beginning.eq_of_length_le (length_pos_iff.mpr named)
    · rw [clear_cons dir name more, ih]
      constructor
      · rintro ⟨free, deeper⟩ front beginning named different
        cases front with
        | nil => exact absurd rfl named
        | cons first others =>
          obtain ⟨rfl, inside⟩ := cons_prefix_cons.mp beginning
          cases others with
          | nil => exact free
          | cons next last =>
            have below := deeper (next :: last) inside (cons_ne_nil _ _)
              fun same => different (congrArg (first :: ·) same)
            rwa [append_assoc, singleton_append] at below
      · intro free
        refine ⟨free [name] ⟨rest, rfl⟩ (cons_ne_nil _ _) fun same => more ?_,
          fun front beginning named different => ?_⟩
        · exact (List.cons.inj same).2.symm
        · rw [append_assoc, singleton_append]
          exact free (name :: front) (cons_prefix_cons.mpr ⟨rfl, beginning⟩)
            (cons_ne_nil _ _) fun same => different (List.cons.inj same).2

theorem flatMap_sublist_map {Item Value : Type} {items : List Item} {some : Item → List Value}
    {value : Item → Value} (single : ∀ item, (some item).Sublist [value item]) :
    (items.flatMap some).Sublist (items.map value) := by
  induction items with
  | nil => exact Sublist.refl _
  | cons item rest ih =>
    rw [flatMap_cons, map_cons, ← singleton_append]
    exact (single item).append ih

section
variable (distinct : tree.Distinct) (named : WellNamed tree) {path : List Name}
  {kind : Kind Bytes} (seen : tree.look path = some kind) (below : path ≠ [])
include distinct named seen below

theorem spells_keyText : Spells (keyText path) path :=
  spells_intercalate below (named (path, kind) ((Node.mem_nodes_iff distinct path kind).mpr
    ⟨below, seen⟩))

end

variable (distinct : tree.Distinct) (named : WellNamed tree)
include distinct named

/-- A file is found exactly if no grouped directory is on the way to it. -/
theorem clear_iff_not_onTheWay (seen : tree.look path = some kind) (below : path ≠ []) :
    clear start opts [] path = true ↔ ∀ directory,
      KeyListing.Grouped (query start opts) (IsDirectory tree) directory →
        ¬ OnTheWay directory (keyText path) := by
  have spells := spells_keyText distinct named seen below
  rw [clear_iff]
  constructor
  · rintro free directory ⟨⟨front, frontNamed, isDir, rfl⟩, matching, grouped⟩ onTheWay
    have spelled := spells_keyText distinct named isDir frontNamed
    obtain ⟨beginning, different⟩ := spelled.append_of_prefix spells onTheWay
    exact free front beginning frontNamed different ⟨matching, grouped⟩
  · intro free front beginning frontNamed different blocked
    have isDir := Node.look_eq_dir_of_below seen beginning different
    refine free (keyText front) ⟨⟨front, frontNamed, isDir, rfl⟩, blocked⟩ ?_
    obtain ⟨rest, rfl⟩ := beginning
    refine (spells_keyText distinct named isDir frontNamed).prefix_of_append spells fun empty => ?_
    exact different (by rw [empty, append_nil])

/-- The first grouped directory on the way to a grouped one has the same group. -/
theorem exists_clear_directory (isDir : tree.look path = some .dir) (below : path ≠ [])
    (matching : (query start opts).Matches (keyText path))
    (grouped : (query start opts).group? (keyText path) = some group) :
    ∃ front, front ≠ [] ∧ tree.look front = some .dir ∧ clear start opts [] front = true ∧
      (query start opts).Matches (keyText front) ∧
      (query start opts).group? (keyText front) = some group := by
  induction size : path.length using Nat.strongRecOn generalizing path with
  | ind count ih =>
    by_cases free : clear start opts [] path = true
    · exact ⟨path, below, isDir, free, matching, grouped⟩
    · rw [clear_iff] at free
      push Not at free
      obtain ⟨front, beginning, frontNamed, different, blocked⟩ := free
      rw [nil_append] at blocked
      have frontDir := Node.look_eq_dir_of_below isDir beginning different
      have shorter : front.length < path.length :=
        lt_of_le_of_ne beginning.length_le fun same => different (beginning.eq_of_length same)
      have spells := spells_keyText distinct named isDir below
      obtain ⟨rest, rfl⟩ := beginning
      have onTheWay := (spells_keyText distinct named frontDir frontNamed).prefix_of_append
        spells fun empty => different (by rw [empty, append_nil])
      obtain ⟨more, text⟩ := (prefix_append _ ['/']).trans onTheWay
      obtain ⟨common, found⟩ := Option.ne_none_iff_exists'.mp blocked.2
      have same := KeyListing.Query.group?_append blocked.1 found more
      rw [text, grouped] at same
      cases same
      exact ih _ (size ▸ shorter) frontDir frontNamed blocked.1 found rfl

omit named in
theorem mem_storedKeys {key : Text} : key ∈ storedKeys tree ↔
    ∃ path data, path ≠ [] ∧ tree.look path = some (.file data) ∧ key = keyText path := by
  unfold storedKeys
  rw [mem_toFinset, mem_map]
  constructor
  · rintro ⟨⟨path, kind⟩, member, rfl⟩
    obtain ⟨listed, isFile⟩ := mem_filter.mp member
    obtain ⟨below, seen⟩ := (Node.mem_nodes_iff distinct path kind).mp listed
    cases kind with
    | dir => simp at isFile
    | file data => exact ⟨path, data, below, seen, rfl⟩
  · rintro ⟨path, data, below, seen, rfl⟩
    refine ⟨(path, .file data), mem_filter.mpr ⟨?_, by simp⟩, rfl⟩
    exact (Node.mem_nodes_iff distinct path _).mpr ⟨below, seen⟩

omit named in
theorem mem_gather {pick : List Name → Kind Bytes → List Text} {text : Text} :
    text ∈ gather start opts pick [] tree ↔ ∃ path kind, path ≠ [] ∧
      tree.look path = some kind ∧ clear start opts [] path = true ∧ text ∈ pick path kind := by
  unfold gather
  rw [mem_flatMap]
  constructor
  · rintro ⟨⟨path, kind⟩, member, picked⟩
    obtain ⟨below, seen⟩ := (Node.mem_nodes_iff distinct path kind).mp member
    split_ifs at picked with free
    · exact ⟨path, kind, below, seen, free, picked⟩
    · cases picked
  · rintro ⟨path, kind, below, seen, free, picked⟩
    refine ⟨(path, kind), (Node.mem_nodes_iff distinct path kind).mpr ⟨below, seen⟩, ?_⟩
    rwa [if_pos free]

omit distinct named in
theorem mem_fileKey {key : Text} :
    key ∈ fileKey start opts path kind ↔
      ∃ data, kind = .file data ∧ (query start opts).Matches (keyText path) ∧
        key = keyText path := by
  cases kind <;> simp [fileKey]

omit distinct named in
theorem mem_dirGroup :
    group ∈ dirGroup start opts path kind ↔ kind = .dir ∧
      (query start opts).Matches (keyText path) ∧
        (query start opts).group? (keyText path) = some group := by
  cases kind <;> simp [dirGroup]

theorem mem_gather_dirGroup :
    group ∈ gather start opts (dirGroup start opts) [] tree ↔ ∃ directory,
      IsDirectory tree directory ∧ (query start opts).Matches directory ∧
      (query start opts).group? directory = some group := by
  simp only [mem_gather distinct, mem_dirGroup]
  constructor
  · rintro ⟨path, _, below, seen, -, rfl, matching, grouped⟩
    exact ⟨keyText path, ⟨path, below, seen, rfl⟩, matching, grouped⟩
  · rintro ⟨_, ⟨path, below, seen, rfl⟩, matching, grouped⟩
    obtain ⟨front, frontNamed, isDir, free, found⟩ :=
      exists_clear_directory distinct named seen below matching grouped
    exact ⟨front, .dir, frontNamed, isDir, free, rfl, found⟩

/-- The keys that are found are the matching ones in no grouped directory. -/
theorem mem_visible_iff (key : Text) :
    key ∈ (gather start opts (fileKey start opts) [] tree).toFinset ↔
      key ∈ storedKeys tree ∧ (query start opts).Matches key ∧ ∀ directory,
        KeyListing.Grouped (query start opts) (IsDirectory tree) directory →
          ¬ OnTheWay directory key := by
  simp only [mem_toFinset, mem_gather distinct, mem_fileKey, mem_storedKeys distinct]
  constructor
  · rintro ⟨path, _, below, seen, free, data, rfl, matching, rfl⟩
    exact ⟨⟨path, data, below, seen, rfl⟩, matching,
      (clear_iff_not_onTheWay distinct named seen below).mp free⟩
  · rintro ⟨⟨path, data, below, seen, rfl⟩, matching, free⟩
    exact ⟨path, _, below, seen, (clear_iff_not_onTheWay distinct named seen below).mpr free,
      data, rfl, matching, rfl⟩

theorem nodup_gather_fileKey : (gather start opts (fileKey start opts) [] tree).Nodup := by
  have single : (gather start opts (fileKey start opts) [] tree).Sublist
      ((tree.nodes.map Prod.fst).map keyText) := by
    rw [map_map]
    refine flatMap_sublist_map fun below => ?_
    obtain ⟨path, kind⟩ := below
    split_ifs
    · cases kind with
      | dir => exact nil_sublist _
      | file data =>
        rw [nil_append, fileKey]
        split_ifs
        · exact Sublist.refl _
        · exact nil_sublist _
    · exact nil_sublist _
  have spelled (path : List Name) (member : path ∈ tree.nodes.map Prod.fst) :
      Spells (keyText path) path := by
    obtain ⟨⟨_, kind⟩, listed, rfl⟩ := mem_map.mp member
    obtain ⟨below, seen⟩ := (Node.mem_nodes_iff distinct _ kind).mp listed
    exact spells_keyText distinct named seen below
  refine single.nodup (Nodup.map_on (fun first firstMember second secondMember same => ?_) distinct)
  rw [← (spelled first firstMember).pieces, same, (spelled second secondMember).pieces]

end Found

section Result
variable {backend : LocalBackend} {host : Host} {files : Node Bytes} {bucket : Text}
  {entries : List (Name × Node Bytes)}

theorem map_key_insertionSort {objects : List ObjectEntry} {keys : List Text}
    (same : (objects.map ObjectEntry.key).Perm keys) (distinct : keys.Nodup) :
    (objects.insertionSort fun first second => first.key ≤ second.key).map ObjectEntry.key =
      keys.toFinset.sort (· ≤ ·) := by
  rw [map_insertionSort _ (· ≤ ·) ObjectEntry.key objects fun _ _ _ _ => Iff.rfl]
  refine Perm.eq_of_pairwise (fun _ _ _ _ => le_antisymm)
    (pairwise_insertionSort (· ≤ ·) _) (Finset.pairwise_sort _ _) ?_
  refine (perm_insertionSort _ _).trans (same.trans ?_)
  exact (toFinset_toList distinct).symm.trans (Finset.sort_perm_toList _ _).symm

variable (valid : validateBucket bucket = .ok ())
  (found : files.find (host.target (backend.dataDir bucket)).names = some (.dir entries))
  (distinct : (Node.dir entries).Distinct) (named : WellNamed (.dir entries))
  (modified : List Name → ℕ) (start : Text) (opts : ListOptions)
include valid found distinct named

theorem exists_list :
    ∃ result, backend.list host files modified bucket start opts = .ok result ∧
      result.objects.map ObjectEntry.key = ((gather start opts (fileKey start opts) []
        (.dir entries)).toFinset.sort (· ≤ ·)).take opts.maxKeys ∧
      result.commonPrefixes.Nodup ∧
      ∀ group, group ∈ result.commonPrefixes ↔
        group ∈ gather start opts (dirGroup start opts) [] (.dir entries) := by
  have present : files.exists? (host.target (backend.dataDir bucket)) = true := by
    unfold Node.exists?
    rw [Node.look_eq_map_find, found]
    rfl
  have enough : (([[]] : List (List Name)).map (cost (.dir entries))).sum ≤
      backend.walkBound host files bucket := by
    unfold walkBound
    rw [found]
    exact le_rfl
  have walked : Adds ⟨[], [], [], false⟩ (backend.walk host files modified bucket start opts
      (backend.walkBound host files bucket) ⟨[], [], [[]], false⟩)
      (gather start opts (fileKey start opts) [] (.dir entries)) []
      (gather start opts (dirGroup start opts) [] (.dir entries)) := by
    have added := walk_spec start opts modified valid distinct found ⟨[], [], [[]], false⟩ enough
    rwa [flatMap_singleton, flatMap_singleton, gatherAt_of_find _ rfl,
      gatherAt_of_find _ rfl] at added
  unfold list
  rw [if_neg (by simp [present])]
  dsimp only
  rw [if_neg (by rw [walked.panicked]; exact Bool.false_ne_true)]
  refine ⟨_, rfl, ?_, walked.distinct nodup_nil, fun group => ?_⟩
  · rw [map_take, map_key_insertionSort walked.objects (nodup_gather_fileKey distinct named)]
    rfl
  · rw [walked.common]
    exact or_iff_right not_mem_nil

/-- **Listings follow the rules** for a prefix, a delimiter and a bound exactly if grouping whole
directories does no harm, which is always so without a delimiter. -/
theorem list_correct_iff :
    ∃ result, backend.list host files modified bucket start opts = .ok result ∧
      (KeyListing.IsListing (query start opts) (storedKeys (.dir entries))
        (result.objects.map ObjectEntry.key) result.commonPrefixes ↔
        KeyListing.Harmless (query start opts) (storedKeys (.dir entries))
          (IsDirectory (.dir entries)) OnTheWay) ∧
      (opts.delimiter = none →
        KeyListing.IsListing (query start opts) (storedKeys (.dir entries))
          (result.objects.map ObjectEntry.key) result.commonPrefixes) := by
  obtain ⟨result, listed, objects, nodup, common⟩ :=
    exists_list valid found distinct named modified start opts
  have correct : KeyListing.IsListing (query start opts) (storedKeys (.dir entries))
      (result.objects.map ObjectEntry.key) result.commonPrefixes ↔
      KeyListing.Harmless (query start opts) (storedKeys (.dir entries))
        (IsDirectory (.dir entries)) OnTheWay := by
    rw [objects]
    exact KeyListing.isListing_of_walk_iff
      (fun _ _ onTheWay => (prefix_append _ _).trans onTheWay)
      (mem_visible_iff distinct named) nodup
      fun group => (common group).trans (mem_gather_dirGroup distinct named)
  exact ⟨result, listed, correct, fun plain =>
    correct.mpr (KeyListing.harmless_of_delimiter_eq_none plain)⟩

end Result

def listingHost : Host where
  cwd := []
  hash := fun data => List.replicate 32 (UInt8.ofNat data.length)
  objectMetas := ⟨fun metadata => [UInt8.ofNat metadata.size], fun _ => .error "not needed"⟩
  uploadMetas := ⟨fun upload => [UInt8.ofNat upload.createdAt], fun _ => .error "not needed"⟩

def listingBackend : LocalBackend := ⟨"/srv".toList⟩

def listingFiles (entries : List (Name × Node Bytes)) : Node Bytes :=
  .dir [("srv".toList, .dir [("buckets".toList, .dir [("logs".toList, .dir
    [("data".toList, .dir entries)])])])]

/-- The keys `a/b` and `d`. -/
def listingEntries : List (Name × Node Bytes) :=
  [("a".toList, .dir [("b".toList, .file [1])]), ("d".toList, .file [2])]

/-- The keys `a/b/c` and `d`. -/
def nestedEntries : List (Name × Node Bytes) :=
  [("a".toList, .dir [("b".toList, .dir [("c".toList, .file [1])])]), ("d".toList, .file [2])]

def slashOptions : ListOptions := { delimiter := some "/".toList }

theorem isDirectory_nested {directory : Text} (isDir : IsDirectory (.dir nestedEntries) directory) :
    directory = "a".toList ∨ directory = "a/b".toList := by
  obtain ⟨path, below, seen, rfl⟩ := isDir
  have distinct : (Node.dir nestedEntries).Distinct := by decide
  have all : ∀ below ∈ (Node.dir nestedEntries).nodes, below.2 = .dir →
      keyText below.1 = "a".toList ∨ keyText below.1 = "a/b".toList := by decide
  exact all (path, .dir) ((Node.mem_nodes_iff distinct path .dir).mpr ⟨below, seen⟩) rfl

theorem harmless_nested : KeyListing.Harmless (query [] slashOptions)
    (storedKeys (.dir nestedEntries)) (IsDirectory (.dir nestedEntries)) OnTheWay := by
  have keys : ∀ key ∈ storedKeys (.dir nestedEntries),
      key = "a/b/c".toList ∨ key = "d".toList := by decide
  have inner : IsDirectory (.dir nestedEntries) "a/b".toList :=
    ⟨["a".toList, "b".toList], cons_ne_nil _ _, rfl, rfl⟩
  have matching : (query [] slashOptions).Matches "a/b".toList := by decide
  have group : (query [] slashOptions).group? "a/b".toList = some "a/".toList := by decide
  refine ⟨fun key member _ grouped hidden => ?_, fun directory common isDir _ grouped => ?_,
    fun key member common _ grouped => ?_⟩
  · rcases keys key member with rfl | rfl
    · exact absurd ⟨"c".toList, rfl⟩ (hidden _ ⟨inner, matching, by decide⟩)
    · exact absurd (by decide) grouped
  · rcases isDirectory_nested isDir with rfl | rfl
    · cases grouped
    · exact ⟨"a/b/c".toList, by decide, by decide, grouped⟩
  · rcases keys key member with rfl | rfl
    · exact ⟨_, inner, matching, group.trans grouped⟩
    · cases grouped

/-- Nested keys are listed up to the next slash. -/
theorem list_correct_sample : ∃ result,
    listingBackend.list listingHost (listingFiles nestedEntries) (fun _ => 0) "logs".toList []
      slashOptions = .ok result ∧
    KeyListing.IsListing (query [] slashOptions) (storedKeys (.dir nestedEntries))
      (result.objects.map ObjectEntry.key) result.commonPrefixes := by
  have found : (listingFiles nestedEntries).find
      (listingHost.target (listingBackend.dataDir "logs".toList)).names =
        some (.dir nestedEntries) := rfl
  obtain ⟨result, listed, correct, -⟩ := list_correct_iff (by decide) found (by decide) (by decide)
    (fun _ => 0) [] slashOptions
  exact ⟨result, listed, correct.mpr harmless_nested⟩

/-- A key with one delimiter is listed as an object, and has no group. -/
theorem grouped_key_listed : ∃ result,
    listingBackend.list listingHost (listingFiles listingEntries) (fun _ => 0) "logs".toList []
      slashOptions = .ok result ∧
    result.objects.map ObjectEntry.key = ["a/b".toList, "d".toList] ∧
    result.commonPrefixes = [] ∧
    ¬ KeyListing.IsListing (query [] slashOptions) (storedKeys (.dir listingEntries))
      (result.objects.map ObjectEntry.key) result.commonPrefixes := by
  refine ⟨_, rfl, by decide, by decide, fun listing => ?_⟩
  have grouped := (listing.groups "a/".toList).mpr ⟨"a/b".toList, by decide, by decide, by decide⟩
  cases grouped

end LocalBackend

end Warp.Store
