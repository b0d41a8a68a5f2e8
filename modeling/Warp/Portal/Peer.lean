import Warp.Foundation.Run
import Warp.Foundation.SecondaryIndex

/-! # Peer management for the Portal mesh network

Peers are stored by public key, and a routing table maps virtual addresses to public keys.
Adding a peer checks its key but not its address, so the table matches the peers throughout a
run exactly if every peer is added with an address that no present peer has
(`PeerManager.routing_matches_iff`).
-/

namespace Warp.Portal

abbrev PublicKey := Vector UInt8 32

def PublicKey.hex (key : PublicKey) : String :=
  String.ofList (key.toList.flatMap fun byte =>
    [Nat.digitChar (byte.toNat / 16), Nat.digitChar (byte.toNat % 16)])

/-- Virtual IP address in the Portal subnet, the four octets of an IPv4 address. -/
structure VirtualIp where
  octets : Vector UInt8 4
deriving DecidableEq

/-- A virtual IP address from a 16-bit host identifier, with the network prefix 10.0. -/
def VirtualIp.new (host : UInt16) : VirtualIp :=
  ⟨#v[10, 0, (host >>> 8).toUInt8, (host &&& 0xFF).toUInt8]⟩

inductive PortalNetError where
  | peerNotFound (message : String)
deriving DecidableEq

inductive PeerStatus where
  | unknown
  | online
  | offline
  | directP2P
  | relayed
deriving DecidableEq

/-- Configuration of a peer. The settings are its endpoints, keepalive interval and allowed
addresses. -/
structure PeerConfig (Settings : Type) where
  publicKey : PublicKey
  virtualIp : VirtualIp
  settings : Settings
deriving DecidableEq

/-- A peer's configuration with its connection statistics and status. -/
structure PeerMetadata (Settings : Type) where
  config : PeerConfig Settings
  lastHandshake : Option ℕ
  txBytes : UInt64
  rxBytes : UInt64
  status : PeerStatus
deriving DecidableEq

variable {Settings : Type}

def PeerMetadata.new (config : PeerConfig Settings) : PeerMetadata Settings where
  config := config
  lastHandshake := none
  txBytes := 0
  rxBytes := 0
  status := .unknown

/-- Peers by public key, and the public key behind each virtual address. -/
structure PeerManager (Settings : Type) where
  peers : Table PublicKey (PeerMetadata Settings)
  routing : Table VirtualIp PublicKey

namespace PeerManager

def new : PeerManager Settings := ⟨∅, ∅⟩

section
variable (manager : PeerManager Settings)

def addPeer (config : PeerConfig Settings) : Except PortalNetError Unit × PeerManager Settings :=
  if (manager.peers.lookup config.publicKey).isSome then
    (.error (.peerNotFound
      ("peer with public key " ++ config.publicKey.hex ++ " already exists")), manager)
  else
    (.ok (), {
      peers := manager.peers.insert config.publicKey (.new config)
      routing := manager.routing.insert config.virtualIp config.publicKey })

def removePeer (key : PublicKey) : Option (PeerMetadata Settings) × PeerManager Settings :=
  match manager.peers.lookup key with
  | some metadata => (some metadata, {
      peers := manager.peers.erase key
      routing := manager.routing.erase metadata.config.virtualIp })
  | none => (none, manager)

def getByKey (key : PublicKey) : Option (PeerMetadata Settings) :=
  manager.peers.lookup key

def getByIp (ip : VirtualIp) : Option (PeerMetadata Settings) :=
  (manager.routing.lookup ip).bind manager.peers.lookup

def listAll : List (PeerMetadata Settings) :=
  manager.peers.values

end

inductive Call (Settings : Type) where
  | addPeer (config : PeerConfig Settings)
  | removePeer (key : PublicKey)

def serve (manager : PeerManager Settings) : Call Settings → PeerManager Settings
  | .addPeer config => (manager.addPeer config).2
  | .removePeer key => (manager.removePeer key).2

/-- The peers are stored under their own keys. -/
def Named (manager : PeerManager Settings) : Prop :=
  ∀ {key peer}, manager.peers.lookup key = some peer → peer.config.publicKey = key

/-- Every peer is found by its address, and every routing entry leads to a peer with that
address. -/
structure Routed (manager : PeerManager Settings) : Prop where
  found : ∀ peer ∈ manager.listAll, manager.getByIp peer.config.virtualIp = some peer
  routes : ∀ {ip key}, manager.routing.lookup ip = some key →
    ∃ peer, manager.getByKey key = some peer ∧ peer.config.virtualIp = ip

/-- A peer under a new key has an address that no present peer has. -/
def Unclaimed (manager : PeerManager Settings) : Call Settings → Prop
  | .addPeer config => manager.getByKey config.publicKey = none →
      ∀ peer ∈ manager.listAll, peer.config.virtualIp ≠ config.virtualIp
  | .removePeer _ => True

section
variable {manager : PeerManager Settings} {config : PeerConfig Settings}
  {peer : PeerMetadata Settings} {key : PublicKey}

theorem addPeer_known (known : manager.peers.lookup config.publicKey = some peer) :
    (manager.addPeer config).2 = manager := by
  simp [addPeer, known]

theorem addPeer_new (unknown : manager.peers.lookup config.publicKey = none) :
    (manager.addPeer config).2 = ⟨manager.peers.insert config.publicKey (.new config),
      manager.routing.insert config.virtualIp config.publicKey⟩ := by
  simp [addPeer, unknown]

theorem removePeer_known (known : manager.peers.lookup key = some peer) :
    (manager.removePeer key).2 =
      ⟨manager.peers.erase key, manager.routing.erase peer.config.virtualIp⟩ := by
  simp only [removePeer, known]

theorem removePeer_unknown (unknown : manager.peers.lookup key = none) :
    (manager.removePeer key).2 = manager := by
  simp only [removePeer, unknown]

theorem named_serve (named : manager.Named) (call : Call Settings) :
    (manager.serve call).Named := by
  cases call with
  | addPeer config =>
    rcases known : manager.peers.lookup config.publicKey with _ | peer
    · intro key peer found
      rw [serve, addPeer_new known] at found
      rcases Table.eq_or_lookup_of_insert found with ⟨rfl, rfl⟩ | ⟨-, found⟩
      · rfl
      · exact named found
    · rw [serve, addPeer_known known]
      exact named
  | removePeer removed =>
    rcases known : manager.peers.lookup removed with _ | peer
    · rw [serve, removePeer_unknown known]
      exact named
    · intro key other found
      rw [serve, removePeer_known known, Table.lookup_erase_eq] at found
      split at found
      · exact absurd found nofun
      · exact named found

theorem routed_iff_matches (named : manager.Named) :
    manager.Routed ↔ SecondaryIndex.Matches
      (fun peer : PeerMetadata Settings => peer.config.virtualIp)
      manager.peers manager.routing := by
  constructor
  · intro routed
    refine ⟨?_, routed.routes⟩
    intro key peer stored
    obtain ⟨other, route, read⟩ :=
      Option.bind_eq_some_iff.mp (routed.found peer (Table.mem_values_iff.mpr ⟨key, stored⟩))
    rw [route, ← named read, named stored]
  · intro agree
    refine ⟨?_, agree.backed⟩
    intro peer member
    obtain ⟨key, stored⟩ := Table.mem_values_iff.mp member
    rw [getByIp, agree.indexed stored]
    exact stored

/-- What one call does to the agreement of the two tables. -/
theorem routed_serve_iff (named : manager.Named) (routed : manager.Routed) (call : Call Settings) :
    (manager.serve call).Routed ↔ manager.Unclaimed call := by
  have agree := (routed_iff_matches named).mp routed
  cases call with
  | addPeer config =>
    rcases known : manager.peers.lookup config.publicKey with _ | peer
    · rw [routed_iff_matches (named_serve named _), serve, addPeer_new known]
      refine (agree.insert_iff known (.new config)).trans ?_
      exact ⟨fun distinct _ => distinct, fun distinct => distinct known⟩
    · rw [serve, addPeer_known known]
      refine iff_of_true routed ?_
      intro unknown
      exact absurd (known.symm.trans unknown) nofun
  | removePeer key =>
    refine iff_of_true ?_ trivial
    rcases known : manager.peers.lookup key with _ | peer
    · rwa [serve, removePeer_unknown known]
    · rw [routed_iff_matches (named_serve named _), serve, removePeer_known known]
      exact agree.erase known

end

/-- The routing table matches the peers in every state of a run exactly if every peer under a
new key is added with an address that no present peer has. -/
theorem routing_matches_iff (calls : List (Call Settings)) :
    Run.Throughout serve Routed new calls ↔ Run.Guarded serve Unclaimed new calls := by
  apply Run.throughout_iff_guarded Routed Named
  · intro manager call named
    exact named_serve named call
  · intro manager call named routed
    exact routed_serve_iff named routed call
  · exact ⟨nofun, nofun⟩
  · exact nofun

def sharedAddress : List (Call Unit) :=
  [.addPeer ⟨.replicate 32 1, .new 100, ()⟩, .addPeer ⟨.replicate 32 2, .new 100, ()⟩]

/-- The second peer is accepted and takes the first one's route. -/
theorem shared_address_loses_route : ¬ Run.Throughout serve Routed new sharedAddress := by
  intro throughout
  have routed : (Run.after serve new sharedAddress).Routed := throughout.2.2
  have first : PeerMetadata.new ⟨.replicate 32 1, .new 100, ()⟩ ∈
      (Run.after serve new sharedAddress).listAll := by decide +kernel
  have answer := routed.found _ first
  revert answer
  decide +kernel

end PeerManager

end Warp.Portal
