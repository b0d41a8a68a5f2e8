import Warp.Chonkers.Timeline

/-! # Committed versions stay retrievable

A commit writes only its own version's file and the metadata, and a prune deletes only the files of
the versions it prunes. So a committed version can be loaded for as long as no commit takes its ID
(`History.committed_versions_retained`), as none does within a process
(`History.idsFree_of_one_process`); a restart sets the counter back.
-/

namespace Warp.Chonkers

open List FileTreeStore ChonkerTree Outcome Nat

variable {versionId : VersionId} {tree : ChonkerTree}

namespace FileTreeStore

variable {codec : TreeCodec} {directory : Directory} {next : Directory}

theorem toList_versionPath (versionId : VersionId) :
    (versionPath versionId).toList = 'v' :: ((toString versionId).toList ++ ".tree".toList) := by
  rw [versionPath, String.toList_append, String.toList_append]
  rfl

theorem versionPath_injective : Function.Injective versionPath := by
  intro left right same
  have lists := congrArg String.toList same
  rw [toList_versionPath, toList_versionPath, List.cons.injEq] at lists
  have digits := append_cancel_right lists.2
  have numbers := congrArg (ofDigitChars 10 · 0) digits
  simpa [toString_eq_ofList_toDigits] using numbers

theorem versionPath_ne_metadataPath (versionId : VersionId) :
    versionPath versionId ≠ metadataPath := by
  intro same
  have lists := congrArg String.toList same
  rw [toList_versionPath] at lists
  have first : 'v' = 'm' := (List.cons.inj lists).1
  contradiction

variable (codec directory) in
theorem lookup_store_other (tree : ChonkerTree) (treeWrite metadataWrite : WriteResult)
    (different : versionId ≠ tree.versionId) :
    (store codec directory tree treeWrite metadataWrite).2.lookup (versionPath versionId) =
      directory.lookup (versionPath versionId) := by
  have otherFile : versionPath versionId ≠ versionPath tree.versionId :=
    fun same => different (versionPath_injective same)
  unfold store
  split
  · rfl
  · rename_i bytes encoded
    have tree := Directory.lookup_write_other directory otherFile bytes treeWrite
    split
    · rename_i failed
      rwa [failed] at tree
    · rename_i next written
      rw [written] at tree
      split
      · exact tree
      · rename_i metadata serialized
        have other := Directory.lookup_write_other next (versionPath_ne_metadataPath versionId)
          metadata metadataWrite
        split
        · rename_i failed
          rw [failed] at other
          exact other.trans tree
        · rename_i done
          rw [done] at other
          exact other.trans tree

theorem load_store (lawful : codec.Lawful) {treeWrite metadataWrite : WriteResult}
    (stored : store codec directory tree treeWrite metadataWrite = (.ok (), next)) :
    load codec next tree.versionId = .ok (some tree) := by
  have found : ∃ bytes, codec.encodeTree tree = .ok bytes ∧
      next.lookup (versionPath tree.versionId) = some bytes := by
    unfold store at stored
    split at stored
    · simp at stored
    · rename_i bytes encoded
      refine ⟨bytes, encoded, ?_⟩
      split at stored
      · simp at stored
      · rename_i written treeDone
        split at stored
        · simp at stored
        · rename_i metadata serialized
          have other := Directory.lookup_write_other written
            (versionPath_ne_metadataPath tree.versionId) metadata metadataWrite
          split at stored
          · simp at stored
          · rename_i last metadataDone
            obtain ⟨-, rfl⟩ := Prod.mk.inj stored
            rw [metadataDone] at other
            cases treeWrite with
            | failed left message => simp [Directory.write] at treeDone
            | written =>
              obtain ⟨-, rfl⟩ := Prod.mk.inj treeDone
              exact other.trans (AList.lookup_insert _)
  obtain ⟨bytes, encoded, present⟩ := found
  simp only [load, present, lawful tree bytes encoded]

variable (directory) in
theorem lookup_delete_other {other : VersionId} (different : other ≠ versionId)
    (failure : Option String) :
    (delete directory versionId failure).2.lookup (versionPath other) =
      directory.lookup (versionPath other) := by
  have otherFile : versionPath other ≠ versionPath versionId :=
    fun same => different (versionPath_injective same)
  unfold delete
  split
  · rfl
  · split
    · exact AList.lookup_erase_ne otherFile
    · rfl

theorem delete_failed {failure : Option String} {reason : Error}
    (failed : delete directory versionId failure = (.error reason, next)) :
    next = directory := by
  unfold delete at failed
  split at failed
  · simp at failed
  · split at failed
    · simp at failed
    · exact (Prod.mk.inj failed).2.symm

variable (codec) in
theorem load_congr
    (same : next.lookup (versionPath versionId) = directory.lookup (versionPath versionId)) :
    load codec next versionId = load codec directory versionId := by
  rw [load, load, same]

end FileTreeStore

variable {overflowChecks : Bool} {hash : Bytes → ChunkId} {codec : TreeCodec}
  {config : ChonkersConfig} (failures : VersionId → Option String) {data : Bytes}
  (versions : List VersionInfo) (pruning : Pruning)

theorem ChonkerTree.versionId_fromData
    (built : fromData overflowChecks hash config data versionId = .ok tree) :
    tree.versionId = versionId := by
  unfold fromData at built
  split at built
  · obtain rfl := ok.inj built
    rfl
  · obtain ⟨chunks, -, built⟩ := bind_eq_ok_iff.mp built
    dsimp only at built
    split at built
    · obtain rfl := ok.inj built
      rfl
    · obtain ⟨top, -, built⟩ := bind_eq_ok_iff.mp built
      obtain rfl := ok.inj built
      rfl

theorem Session.exists_modify_eq (session : Session) (name : ℕ)
    (change : VersionTimeline → VersionTimeline) :
    ∃ timelines, session.modify name change = { session with timelines } := by
  unfold Session.modify
  split
  · exact ⟨_, rfl⟩
  · exact ⟨session.timelines, rfl⟩

namespace History

variable {history : History}

/-- What a commit can do: build no tree and leave everything as it is, build a tree and fail
to store it, or store it and return its version. -/
inductive Committed (codec : TreeCodec) (history : History)
    (built : Outcome Error ChonkerTree) (next : History) : Prop where
  | unbuilt (directory : next.session.directory = history.session.directory)
      (live : next.live = history.live)
  | unstored {tree : ChonkerTree} (isBuilt : built = .ok tree)
      (others : ∀ versionId, versionId ≠ history.session.counter →
        FileTreeStore.load codec next.session.directory versionId =
          FileTreeStore.load codec history.session.directory versionId)
      (live : next.live = history.live)
  | stored {tree : ChonkerTree} (isBuilt : built = .ok tree)
      (others : ∀ versionId, versionId ≠ history.session.counter →
        FileTreeStore.load codec next.session.directory versionId =
          FileTreeStore.load codec history.session.directory versionId)
      (loaded : FileTreeStore.load codec next.session.directory history.session.counter =
        .ok (some tree))
      (live : next.live = (history.session.counter, tree) :: history.live)

theorem committed_commit (lawful : codec.Lawful) (name : ℕ) (timeline : VersionTimeline)
    (request : CommitRequest) :
    Committed codec history
      (fromData overflowChecks hash timeline.config request.data
        history.session.counter)
      (history.commit overflowChecks hash codec name timeline request) := by
  cases built : fromData overflowChecks hash timeline.config request.data
      history.session.counter with
  | error | panic =>
    simp only [History.commit, Session.commit, VersionTimeline.commit, built]
    exact .unbuilt rfl rfl
  | ok tree =>
    have own := versionId_fromData built
    have others (versionId : VersionId) (different : versionId ≠ history.session.counter) :=
      load_congr codec (lookup_store_other codec
        history.session.directory tree request.treeWrite request.metadataWrite
        (own.symm ▸ different))
    cases stored : FileTreeStore.store codec history.session.directory tree request.treeWrite
        request.metadataWrite with
    | mk result next =>
      rw [stored] at others
      cases result with
      | error failure =>
        simp only [History.commit, Session.commit, VersionTimeline.commit, built, stored]
        exact .unstored rfl others rfl
      | ok done =>
        have loaded := load_store lawful stored
        rw [own] at loaded
        simp only [History.commit, Session.commit, VersionTimeline.commit, built, stored, own]
        exact .stored rfl others loaded rfl

end History

theorem VersionTimeline.pruned_subset_pruneVersions :
    pruning.pruned ⊆ (pruneVersions failures versions pruning).2.pruned := by
  induction versions generalizing pruning with
  | nil => exact Subset.refl _
  | cons info rest ih =>
    rw [pruneVersions]
    split
    · exact Subset.refl _
    · intro versionId member
      exact ih _ (mem_append_left _ member)

theorem VersionTimeline.lookup_pruneVersions
    (kept : versionId ∉ (pruneVersions failures versions pruning).2.pruned) :
    (pruneVersions failures versions pruning).2.directory.lookup
        (FileTreeStore.versionPath versionId) =
      pruning.directory.lookup (FileTreeStore.versionPath versionId) := by
  induction versions generalizing pruning with
  | nil => rfl
  | cons info rest ih =>
    rw [pruneVersions] at kept ⊢
    split at kept
    · rename_i failure next failed
      rw [delete_failed failed]
    · rename_i next deleted
      have different : versionId ≠ info.id := by
        rintro rfl
        apply kept
        apply pruned_subset_pruneVersions
        exact mem_append_right _ (mem_singleton_self _)
      have other := lookup_delete_other pruning.directory different (failures info.id)
      rw [deleted] at other
      exact (ih _ kept).trans other

namespace History

variable (overflowChecks hash codec)

/-- Every committed version that was not pruned since can be loaded. -/
def Retained (history : History) : Prop :=
  ∀ version ∈ history.live,
    FileTreeStore.load codec history.session.directory version.1 = .ok (some version.2)

/-- A commit that builds a tree does not take the ID of a committed version that was not pruned
since. -/
def IdFree (history : History) : SessionAction → Prop
  | .commit name request =>
    ∀ timeline ∈ history.session.timelines.lookup name,
      (ChonkerTree.fromData overflowChecks hash timeline.config request.data
        history.session.counter).succeedsWith (fun _ => true) →
        history.session.counter ∉ history.live.map Prod.fst
  | .create .. | .createRef .. | .deleteRef .. | .prune .. | .restart => True

variable {overflowChecks hash codec} {history : History} {next : History}

theorem Retained.committed {built : Outcome Error ChonkerTree} (retained : Retained codec history)
    (committed : Committed codec history built next)
    (free : built.succeedsWith (fun _ => true) →
      history.session.counter ∉ history.live.map Prod.fst) : Retained codec next := by
  have kept (others : ∀ versionId, versionId ≠ history.session.counter →
      FileTreeStore.load codec next.session.directory versionId =
        FileTreeStore.load codec history.session.directory versionId)
      (isBuilt : built.succeedsWith (fun _ => true)) (version : VersionId × ChonkerTree)
      (member : version ∈ history.live) :
      FileTreeStore.load codec next.session.directory version.1 = .ok (some version.2) := by
    have different : version.1 ≠ history.session.counter := by
      intro same
      exact free isBuilt (same ▸ mem_map_of_mem member)
    rw [others version.1 different]
    exact retained version member
  cases committed with
  | unbuilt directory live =>
    rw [Retained, directory, live]
    exact retained
  | unstored isBuilt others live =>
    rw [Retained, live]
    exact kept others (by rw [isBuilt]; rfl)
  | stored isBuilt others loaded live =>
    rw [Retained, live]
    exact forall_mem_cons.mpr ⟨loaded, kept others (by rw [isBuilt]; rfl)⟩

theorem Retained.prune (retained : Retained codec history) (name : ℕ) (timeline : VersionTimeline)
    (keepCount : ℕ) (failures : VersionId → Option String) :
    Retained codec (history.prune name timeline keepCount failures) := by
  intro version member
  obtain ⟨member, kept⟩ := mem_filter.mp member
  rw [← retained version member]
  apply load_congr
  apply VersionTimeline.lookup_pruneVersions
  exact of_decide_eq_true kept

theorem Retained.step (lawful : codec.Lawful) (history : History) (action : SessionAction)
    (retained : Retained codec history) (free : IdFree overflowChecks hash history action) :
    Retained codec (history.step overflowChecks hash codec action) := by
  have modified (name : ℕ) (change : VersionTimeline → VersionTimeline) :
      Retained codec { history with session := history.session.modify name change } := by
    obtain ⟨timelines, modify⟩ := history.session.exists_modify_eq name change
    rw [modify]
    exact retained
  cases action with
  | create name config => exact retained
  | createRef name | deleteRef name => exact modified name _
  | commit name request =>
    rw [History.step]
    split
    · rename_i timeline found
      exact retained.committed (committed_commit lawful name timeline request) (free timeline found)
    · exact retained
  | prune name keepCount failures =>
    rw [History.step]
    split
    · rename_i timeline found
      exact retained.prune name timeline keepCount failures
    · exact retained
  | restart => exact retained

variable (overflowChecks hash)

abbrev after (codec : TreeCodec) (directory : Directory) (actions : List SessionAction) : History :=
  Run.after (History.step overflowChecks hash codec) (start directory) actions

/-- **Committed versions are retained.** If no commit takes the ID of a committed version that
was not pruned since, then every such version is loaded as the tree of its commit. -/
theorem committed_versions_retained (lawful : codec.Lawful) (directory : Directory)
    (actions : List SessionAction)
    (guarded : Run.Guarded (History.step overflowChecks hash codec) (IdFree overflowChecks hash)
      (start directory) actions)
    (version : VersionId) (tree : ChonkerTree)
    (committed : (version, tree) ∈ (after overflowChecks hash codec directory actions).live) :
    FileTreeStore.load codec (after overflowChecks hash codec directory actions).session.directory
      version = .ok (some tree) := by
  have retained : Retained codec (after overflowChecks hash codec directory actions) := by
    apply Run.invariant _ (Retained.step lawful) _ guarded
    intro version member
    contradiction
  exact retained (version, tree) committed

deriving instance DecidableEq for Error, ChonkersConfig, ChonkerNode, ChonkerTree

/-- The BLAKE3 hashes of the bytes 0 and 1. -/
def byteHash (data : Bytes) : ChunkId :=
  if data = [1] then digest 0x2b6588a168150ab1982980347192ba25e21d67f17aa25f92e072c1bb1f72fc48
  else zeroByteHash data

/-- The tree of a version of one byte. -/
def byteTree (version byte : UInt8) : ChonkerTree :=
  let id := byteHash [byte]
  let leaf := ChonkerNode.leaf id (ChunkWeight.fromHash id) (0, 1)
  ⟨version.toNat, some id, (∅ : Nodes).insert id leaf, .default, 1⟩

/-- MessagePack of the tree, in which an identifier is an array of numbers. -/
def byteTreeBytes (version byte : UInt8) : Bytes :=
  let hash := byteHash [byte]
  let id := [220, 0, 32] ++ hash.toList.flatMap fun byte => if byte < 128 then [byte] else [204, byte]
  [149, version] ++ id ++ [129] ++ id ++ [151] ++ id ++
    207 :: Bytes.beBytes 8 (ChunkWeight.fromHash hash) ++
    [0, 146, 0, 1, 144, 192, 195, 151, 3, 205, 16, 0, 4, 203, 63, 208, 0, 0, 0, 0, 0, 0, 203, 64, 16,
      0, 0, 0, 0, 0, 0, 64, 3, 1]

/-- JSON of the latest version, a digit. -/
def metadataBytes (version : ℕ) : Bytes :=
  [123, 10, 32, 32, 34, 108, 97, 116, 101, 115, 116, 95, 118, 101, 114, 115, 105, 111, 110, 34, 58,
    32, 48 + UInt8.ofNat version, 10, 125]

/-- The versions and bytes of the trees that are serialised. -/
def sampleTrees : List (UInt8 × UInt8) := [(1, 0), (1, 1), (2, 1)]

/-- Knows the bytes of the sample trees. -/
def sampleCodec : TreeCodec where
  encodeTree tree :=
    match sampleTrees.find? fun sample => tree = byteTree sample.1 sample.2 with
    | some sample => .ok (byteTreeBytes sample.1 sample.2)
    | none => .error "unknown"
  decodeTree bytes :=
    match sampleTrees.find? fun sample => bytes = byteTreeBytes sample.1 sample.2 with
    | some sample => .ok (byteTree sample.1 sample.2)
    | none => .error "unknown"
  encodeMetadata latest := .ok (metadataBytes (latest.getD 0))

theorem lawful_sampleCodec : sampleCodec.Lawful := by
  intro tree bytes encoded
  simp only [sampleCodec] at encoded
  split at encoded
  · next sample found =>
    obtain rfl := Except.ok.inj encoded
    have same := find?_some found
    have distinct : ∀ sample ∈ sampleTrees, (sampleTrees.find? fun other =>
        byteTreeBytes sample.1 sample.2 = byteTreeBytes other.1 other.2) = some sample := by
      simp only [sampleTrees, forall_mem_cons]
      exact ⟨by decide +kernel, by decide +kernel, by decide +kernel, nofun⟩
    simp only [sampleCodec, distinct sample (mem_of_find?_eq_some found)]
    rw [of_decide_eq_true same]
  · contradiction

def commitData (data : Bytes) : SessionAction := .commit 0 ⟨data, none, 0, .written, .written⟩

instance (history : History) (action : SessionAction) :
    Decidable (IdFree overflowChecks hash history action) := by
  cases action <;> unfold IdFree <;> infer_instance

/-- Two versions, the first of which is pruned before a restart takes its ID again. -/
def sampleRestart : List SessionAction :=
  [.create 0 .default, commitData [0], commitData [1], .prune 0 1 fun _ => none, .restart,
    .create 0 .default, commitData [1]]

/-- The second version is still loaded after the restart. -/
theorem committed_versions_retained_restart :
    (2, byteTree 2 1) ∈ (after false byteHash sampleCodec ∅ sampleRestart).live ∧
      FileTreeStore.load sampleCodec
        (after false byteHash sampleCodec ∅ sampleRestart).session.directory 2 =
          .ok (some (byteTree 2 1)) := by
  have committed : (2, byteTree 2 1) ∈ (after false byteHash sampleCodec ∅ sampleRestart).live := by
    decide +kernel
  have guarded : Run.Guarded (History.step false byteHash sampleCodec) (IdFree false byteHash)
      (start ∅) sampleRestart := by
    decide +kernel
  exact ⟨committed, committed_versions_retained false byteHash lawful_sampleCodec ∅ sampleRestart
    guarded 2 (byteTree 2 1) committed⟩

/-- The first version after a restart overwrites the first version before it. -/
theorem restart_overwrites_version :
    let actions := [.create 0 .default, commitData [0], .restart, .create 0 .default, commitData [1]]
    (1, byteTree 1 0) ∈ (after false byteHash sampleCodec ∅ actions).live ∧
      FileTreeStore.load sampleCodec
        (after false byteHash sampleCodec ∅ actions).session.directory 1 =
          .ok (some (byteTree 1 1)) ∧ byteTree 1 1 ≠ byteTree 1 0 := by
  decide +kernel

/-- The IDs of live versions were taken before. -/
def Below (history : History) : Prop :=
  ∀ version ∈ history.live, version.1 < history.session.counter

theorem Session.takesVersionId_of_built
    (built : fromData overflowChecks hash config data versionId = .ok tree) :
    Session.takesVersionId overflowChecks hash config data = true := by
  unfold fromData at built
  split at built
  · rename_i isEmpty
    rw [Session.takesVersionId, isEmpty, Bool.true_or]
  · obtain ⟨chunks, chunked, -⟩ := bind_eq_ok_iff.mp built
    rw [Session.takesVersionId, chunked]
    exact Bool.or_true _

variable (codec) in
theorem counter_commit (room : history.session.counter + 1 < 2 ^ 64) (name : ℕ)
    (timeline : VersionTimeline) (request : CommitRequest) :
    (history.commit overflowChecks hash codec name timeline request).session.counter =
      if Session.takesVersionId overflowChecks hash timeline.config request.data then
        history.session.counter + 1
      else history.session.counter := by
  have counter :
      (history.session.commit overflowChecks hash codec name timeline request).2.counter =
      if Session.takesVersionId overflowChecks hash timeline.config request.data then
        history.session.counter + 1
      else history.session.counter := by
    simp only [Session.commit, mod_eq_of_lt room]
  rw [← counter]
  unfold History.commit
  dsimp only
  split
  · rfl
  · rfl

theorem Below.committed {built : Outcome Error ChonkerTree} (below : Below history)
    (committed : Committed codec history built next)
    (taken : ∀ tree, built = .ok tree → next.session.counter = history.session.counter + 1)
    (atLeast : history.session.counter ≤ next.session.counter) : Below next := by
  have earlier (version : VersionId × ChonkerTree) (member : version ∈ history.live) :
      version.1 < next.session.counter := (below version member).trans_le atLeast
  cases committed with
  | unbuilt directory live | unstored isBuilt others live =>
    rw [Below, live]
    exact earlier
  | stored isBuilt others loaded live =>
    rw [Below, live, forall_mem_cons]
    refine ⟨?_, earlier⟩
    rw [taken _ isBuilt]
    exact lt_succ_self _

theorem Below.modify (below : Below history) (name : ℕ)
    (change : VersionTimeline → VersionTimeline) :
    Below { history with session := history.session.modify name change } ∧
      (history.session.modify name change).counter ≤ history.session.counter + 1 := by
  obtain ⟨timelines, modify⟩ := history.session.exists_modify_eq name change
  rw [modify]
  exact ⟨below, le_succ _⟩

theorem Below.idFree (below : Below history) (action : SessionAction) :
    IdFree overflowChecks hash history action := by
  cases action with
  | commit name request =>
    intro timeline found built member
    obtain ⟨version, live, same⟩ := mem_map.mp member
    exact (below version live).ne same
  | create name config => trivial
  | createRef name ref version => trivial
  | deleteRef name ref => trivial
  | prune name keepCount failures => trivial
  | restart => trivial

theorem Below.step (lawful : codec.Lawful) (below : Below history)
    (room : history.session.counter + 1 < 2 ^ 64) {action : SessionAction}
    (running : action ≠ .restart) :
    Below (history.step overflowChecks hash codec action) ∧
      (history.step overflowChecks hash codec action).session.counter ≤
        history.session.counter + 1 := by
  cases action with
  | create name config => exact ⟨below, le_succ _⟩
  | createRef name | deleteRef name => exact below.modify name _
  | commit name request =>
    rw [History.step]
    split
    · rename_i timeline found
      have counter := counter_commit overflowChecks hash codec room name timeline request
      refine ⟨below.committed (committed_commit lawful name timeline request)
        (fun tree built => ?_) ?_, ?_⟩
      · rw [counter, if_pos (Session.takesVersionId_of_built overflowChecks hash built)]
      · rw [counter]
        split <;> omega
      · rw [counter]
        split <;> omega
    · exact ⟨below, le_succ _⟩
  | prune name keepCount failures =>
    rw [History.step]
    split
    · exact ⟨fun version member => below version (mem_filter.mp member).1, le_succ _⟩
    · exact ⟨below, le_succ _⟩
  | restart => exact absurd rfl running

/-- **Within a process no ID is taken twice**, as long as the counter does not wrap. -/
theorem idsFree_of_one_process (lawful : codec.Lawful) {actions : List SessionAction}
    (running : .restart ∉ actions) (history : History) (below : Below history)
    (room : history.session.counter + actions.length < 2 ^ 64) :
    Run.Guarded (History.step overflowChecks hash codec) (IdFree overflowChecks hash)
      history actions := by
  induction actions generalizing history with
  | nil => trivial
  | cons action rest ih =>
    rw [length_cons] at room
    obtain ⟨first, running⟩ := not_or.mp (mem_cons.not.mp running)
    obtain ⟨kept, counter⟩ :=
      below.step overflowChecks hash lawful (by omega) (Ne.symm first)
    exact ⟨below.idFree overflowChecks hash action, ih running _ kept (by omega)⟩

/-- **Versions are retained within a process.** Until it restarts, every version that was committed
and not pruned since is loaded as the tree of its commit. -/
theorem process_retains_versions (lawful : codec.Lawful) (directory : Directory)
    {actions : List SessionAction} (running : .restart ∉ actions)
    (room : actions.length + 1 < 2 ^ 64) {version : VersionId} {tree : ChonkerTree}
    (committed : (version, tree) ∈ (after overflowChecks hash codec directory actions).live) :
    FileTreeStore.load codec (after overflowChecks hash codec directory actions).session.directory
      version = .ok (some tree) := by
  have below : Below (start directory) := fun version member => absurd member not_mem_nil
  have free := idsFree_of_one_process overflowChecks hash lawful running (start directory) below
    (show 1 + actions.length < 2 ^ 64 by omega)
  have retained : Retained codec (after overflowChecks hash codec directory actions) := by
    apply Run.invariant _ (Retained.step lawful) _ free
    intro version member
    contradiction
  exact retained (version, tree) committed

/-- Two versions, the first of which is pruned. -/
theorem process_retains_versions_pruned :
    FileTreeStore.load sampleCodec (after false byteHash sampleCodec ∅
      (sampleRestart.take 4)).session.directory 2 = .ok (some (byteTree 2 1)) :=
  process_retains_versions false byteHash lawful_sampleCodec ∅
    (by simp [sampleRestart, commitData]) (by decide) (by decide +kernel)

end History

end Warp.Chonkers
