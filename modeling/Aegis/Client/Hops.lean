import Aegis.Crypto.SphinxOnion
import Aegis.Lib.Fallible
import Aegis.Topology.PathBuilders
import Aegis.Topology.RosterLifecycle
import Aegis.Trust.Anomaly

/-!
# The hops of a client (`hops_resolve.rs`, `send.rs`, `config.rs`)

A client takes its hops from its configuration, as they are listed, or builds a path over the roster
and looks up the key of every relay on it among those that are listed.  Before it builds a packet it
checks every key against the commitment that the roster has for its relay.

* `buildPacketRequireBindings_of_bound` — over hops that are bound to their keys none is
  complained of.
* `peels_of_bound` — **the relays that were committed to peel the packet**, each by its own key.
-/

namespace Aegis

open Buffer Fallible Sampling Sampling.Draws

/-! ## KEM keys (`kem.rs`) -/

/-- What the keys take from other crates. -/
structure KemKeys {ρ : Type} (C : Suite ρ) where
  /-- `StaticSecret::from`. -/
  staticSecret : Bytes 32 → C.x25519.Secret
  /-- `MlKem768::generate_deterministic`. -/
  mlkemGenerate : Bytes 32 → Bytes 32 → C.mlkem.DecapsulationKey × C.mlkem.EncapsulationKey
  /-- `EncapsulationKey::as_bytes`. -/
  mlkemBytes : C.mlkem.EncapsulationKey → List UInt8

/-- What sets the canonical bytes of a key apart. -/
def relayKemCanonicalPrefix : List UInt8 := ascii "aegis-relay-kem-v1"

section Keys

variable {ρ : Type} {C : Suite ρ} (K : KemKeys C)

/-- The bytes of which the commitment is the digest: the prefix and both public keys. -/
def RelayKemPublic.canonicalBytes (pk : RelayKemPublic C) : List UInt8 :=
  relayKemCanonicalPrefix ++ pk.x25519.toList ++ K.mlkemBytes pk.mlkem

/-- `kem_public_commitment`. -/
def RelayKemPublic.commitment (pk : RelayKemPublic C) : Bytes 32 := C.sha3 (pk.canonicalBytes K)

/-- The key pair that three seeds determine. -/
def RelayKemSecret.generateDeterministic (x25519Seed mlkemD mlkemZ : Bytes 32) :
    RelayKemSecret C × RelayKemPublic C :=
  let x25519 := K.staticSecret x25519Seed
  let (mlkem, mlkemPub) := K.mlkemGenerate mlkemD mlkemZ
  (⟨x25519, mlkem⟩, ⟨C.x25519.publicKey x25519, mlkemPub⟩)

/-- Is this the key that was committed to at admission? -/
def RelayRecord.bindsKemPublic (record : RelayRecord) (pk : RelayKemPublic C) : Bool :=
  decide (record.kemPublicCommitment = pk.commitment K)

end Keys

/-! ## Configuration (`config.rs`) -/

/-- A hop as the configuration lists it, its key and its seeds in hexadecimal. -/
structure HopConfig where
  id : List Char
  kemX25519Seed : List Char
  kemMlkemD : List Char
  kemMlkemZ : List Char
  kemCommitment : Option (List Char)
  deriving DecidableEq

/-- The section of the configuration on how paths are built. -/
structure PathFileConfig where
  clientSeed : UInt64
  epoch : UInt64
  topologySeed : UInt64
  epochAge : UInt64
  anomalyDemotionFlag : Bool
  peerAnomalyCount : UInt32
  requireDiverseJurisdictions : Bool
  maxPerJurisdiction : ℕ
  deriving DecidableEq

namespace PathFileConfig

/-- One relay of a jurisdiction on a path. -/
def defaultMaxPerJurisdiction : ℕ := 1

/-- What stands for a section that is not there. -/
def default : PathFileConfig := ⟨0, 0, 0, 0, false, 0, false, defaultMaxPerJurisdiction⟩

/-- The limit on jurisdictions, if one is set. -/
def jurisdictionPolicy (cfg : PathFileConfig) : Option JurisdictionPolicy :=
  if cfg.requireDiverseJurisdictions = false then none else some ⟨max cfg.maxPerJurisdiction 1⟩

end PathFileConfig

namespace GuardMitigationPolicy

/-- No signal counts, and no age short of the greatest there is. -/
def disabled : GuardMitigationPolicy := ⟨0xFFFFFFFFFFFFFFFF, 0xFFFFFFFFFFFFFFFF, false, false, 3⟩

/-- Guards are drawn anew after twelve epochs, on a demotion, or when two peers are anomalous. -/
def adaptiveFirst : GuardMitigationPolicy := ⟨12, 12, true, true, 2⟩

/-- After eight epochs, on a demotion, or when one peer is anomalous. -/
def adaptiveV2 : GuardMitigationPolicy := ⟨8, 8, true, true, 1⟩

/-- After four epochs and more and more often from the second on, or on the same signals. -/
def adaptiveV3 : GuardMitigationPolicy := ⟨4, 2, true, true, 1⟩

/-- After two epochs and sometimes after one, or on the same signals. -/
def adaptiveV4 : GuardMitigationPolicy := ⟨2, 1, true, true, 1⟩

end GuardMitigationPolicy

/-- The section on mitigation: a preset by name, and a flag of its own. -/
structure GuardMitigationFileConfig where
  preset : Option String
  adaptiveFirst : Bool
  deriving DecidableEq

/-- The policy of the preset, `disabled` for a name that is not known; without a preset the flag
decides. -/
def GuardMitigationFileConfig.resolvePolicy (cfg : GuardMitigationFileConfig) :
    GuardMitigationPolicy :=
  match cfg.preset with
  | some "adaptive_first" => .adaptiveFirst
  | some "adaptive_v2" => .adaptiveV2
  | some "adaptive_v3" => .adaptiveV3
  | some "adaptive_v4" => .adaptiveV4
  | some _ => .disabled
  | none => if cfg.adaptiveFirst then .adaptiveFirst else .disabled

/-- What the resolution of hops reads of the configuration. -/
structure ClientConfigFile where
  hops : List HopConfig
  roster : Option RosterFileConfig
  guardMitigation : GuardMitigationFileConfig
  path : Option PathFileConfig

/-! ## Packets (`send.rs`) -/

/-- An address, as far as it is carried along. -/
structure SocketAddr where
  ip : String
  port : UInt16
  deriving DecidableEq

/-- A hop, its key and the commitment that the key is checked against. -/
structure ClientHop {ρ : Type} (C : Suite ρ) where
  id : Bytes 32
  kemPublic : RelayKemPublic C
  kemCommitment : Option (Bytes 32)
  addr : Option SocketAddr

/-- What a send fails with. -/
inductive SendError where
  | pathTooShort
  | boundPathLengthMismatch (records publics : ℕ)
  | crypto (e : CryptoError)
  | kemBindingMismatch (hopId hopIdTail : UInt8)
  | missingKemCommitment (hopId hopIdTail : UInt8)
  deriving DecidableEq

/-- Whether every hop must have a commitment. -/
structure BuildPacketOptions where
  requireKemBinding : Bool

section Send

variable {ρ : Type} {C : Suite ρ} (K : KemKeys C)

namespace ClientHop

/-- A hop from the record of the roster, with the key found for it. -/
def fromRelayRecord (record : RelayRecord) (kemPublic : RelayKemPublic C)
    (addr : Option SocketAddr) : ClientHop C where
  id := record.id
  kemPublic := kemPublic
  kemCommitment := some record.kemPublicCommitment
  addr := addr

/-- The hop of a packet's path. -/
def pathHop (hop : ClientHop C) : PathHop C := ⟨hop.id, hop.kemPublic⟩

end ClientHop

/-- The key is checked against the commitment, if there is one; that there is none is an error only
where one is required. -/
def verifyKemBinding (require : Bool) (hop : ClientHop C) : Except SendError Unit :=
  match hop.kemCommitment with
  | some expected =>
    if expected ≠ hop.kemPublic.commitment K then
      .error (.kemBindingMismatch (hop.id.get 0) (hop.id.get 1))
    else .ok ()
  | none =>
    if require then .error (.missingKemCommitment (hop.id.get 0) (hop.id.get 1)) else .ok ()

/-- The bindings of all hops are checked, and then the packet is built. -/
def buildPacketWithOptions (hops : List (ClientHop C)) (payload : List UInt8) (rng : ρ)
    (options : BuildPacketOptions) : Except SendError (SphinxPacket × ρ) :=
  if hops.length < 2 then .error .pathTooShort
  else do
    hops.forM (verifyKemBinding K options.requireKemBinding)
    (build C (hops.map ClientHop.pathHop) payload rng).mapError .crypto

/-- The same, with a commitment required of every hop. -/
def buildPacketRequireBindings (hops : List (ClientHop C)) (payload : List UInt8) (rng : ρ) :
    Except SendError (SphinxPacket × ρ) :=
  buildPacketWithOptions K hops payload rng ⟨true⟩

/-- The hops of the records, each with its key and the address known for it. -/
def hopsFromRecords (records : List RelayRecord) (publics : List (RelayKemPublic C))
    (addrs : HashMap (Bytes 32) SocketAddr) : List (ClientHop C) :=
  (records.zip publics).map fun p => .fromRelayRecord p.1 p.2 (addrs.lookup p.1.id)

/-- The same, once every key has been checked against its record. -/
def hopsFromBoundPath (records : List RelayRecord) (publics : List (RelayKemPublic C))
    (addrs : HashMap (Bytes 32) SocketAddr) : Except SendError (List (ClientHop C)) :=
  if records.length ≠ publics.length then
    .error (.boundPathLengthMismatch records.length publics.length)
  else do
    (records.zip publics).forM fun p =>
      if p.1.bindsKemPublic K p.2 = false then
        .error (.kemBindingMismatch (p.1.id.get 0) (p.1.id.get 1))
      else .ok ()
    .ok (hopsFromRecords records publics addrs)

end Send

/-! ## Resolution (`hops_resolve.rs`) -/

/-- What a resolution fails with. -/
inductive HopsResolveError where
  | hex (message : String)
  | roster (e : RosterLoadError)
  | topology (e : TopologyError)
  | send (e : SendError)
  | noHops
  | rosterRequired
  | kemRegistryRequired
  | missingKemRegistryEntry (relayId : List Char)
  | kemCommitment (message : String)
  deriving DecidableEq

/-- `parse_hex32`. -/
def parseHopHex (s : List Char) : Except String (Bytes 32) :=
  let s := StoredLedger.trimStart0x (trimLabel s)
  if (utf8 s).length ≠ 64 then .error "expected 64 hex chars"
  else
    match hexPairs (utf8 s) with
    | none => .error "invalid hex"
    | some out => if h : out.length = 32 then .ok ⟨out, h⟩ else .error "invalid hex"

/-- `RelayPruningPolicy::new`. -/
def RelayPruningPolicy.new {D : Type} (decay alpha zThreshold : ℚ) :
    Option (RelayPruningPolicy D) :=
  (ReputationLedger.new decay).map fun ledger => .withLedger ledger alpha zThreshold

/-- The four layers of `high_threat`. -/
def TopologyConfig.highThreat : TopologyConfig := ⟨4⟩

/-- What a client runs with: the primitives, the file system and its generators. -/
structure ClientEnv {ρ SK VK : Type} (C : Suite ρ) (E : Ed25519 SK VK) (σ ω : Type) where
  kem : KemKeys C
  /-- `VerifyingKey::from_bytes`. -/
  fromBytes : Bytes 32 → Option VK
  /-- `serde_json::from_slice`. -/
  fromSlice : List UInt8 → Except String PersistedRoster
  /-- `fs::read`. -/
  read : String → Except IoError (List UInt8)
  /-- The order in which the roster's map hands out its entries. -/
  order : IterOrder RelayId RosterEntry
  std : SeededRng σ
  os : Rng ω

section Resolve

variable {ρ SK VK σ ω : Type} {C : Suite ρ} {E : Ed25519 SK VK} (env : ClientEnv C E σ ω)

/-- A hop from the configuration: its key from its seeds. -/
def hopConfigToClientHop (hop : HopConfig) : Except HopsResolveError (ClientHop C) := do
  let id ← (parseHopHex hop.id).mapError .hex
  let x ← (parseHopHex hop.kemX25519Seed).mapError .hex
  let d ← (parseHopHex hop.kemMlkemD).mapError .hex
  let z ← (parseHopHex hop.kemMlkemZ).mapError .hex
  let kemCommitment ← (hop.kemCommitment.mapM parseHopHex).mapError .kemCommitment
  pure ⟨id, (RelayKemSecret.generateDeterministic env.kem x d z).2, kemCommitment, none⟩

/-- One entry of the registry; no relay is listed twice. -/
def registerHop (registry : HashMap (Bytes 32) (ClientHop C)) (hop : HopConfig) :
    Except HopsResolveError (HashMap (Bytes 32) (ClientHop C)) := do
  let clientHop ← hopConfigToClientHop env hop
  if (registry.lookup clientHop.id).isSome then
    .error (.hex ("duplicate kem registry entry for relay " ++ String.ofList hop.id))
  else .ok (registry.insert clientHop.id clientHop)

/-- The hops that are listed, by their ids. -/
def kemRegistryFromHops (hops : List HopConfig) :
    Except HopsResolveError (HashMap (Bytes 32) (ClientHop C)) :=
  hops.foldlM (registerHop env) ∅

/-- The hops that are listed, in their order. -/
def explicitHopsFromConfig (hops : List HopConfig) : Except HopsResolveError (List (ClientHop C)) :=
  if hops.isEmpty then .error .noHops else hops.mapM (hopConfigToClientHop env)

/-- The parameters of the path, from the configuration. -/
def pathBuildParams (pathCfg : PathFileConfig) (file : ClientConfigFile) :
    ClientPathBuildParams where
  clientSeed := pathCfg.clientSeed
  guardConfig := .default
  mitigation := file.guardMitigation.resolvePolicy
  signals := ⟨pathCfg.epochAge, pathCfg.anomalyDemotionFlag, pathCfg.peerAnomalyCount⟩
  minReputation := defaultPathReputationFloor
  maxAttempts := 50
  jurisdiction := pathCfg.jurisdictionPolicy

/-- The double 0.9. -/
def pathDecay : ℚ := 8106479329266893 / 2 ^ 53

/-- The double 0.2. -/
def pathAlpha : ℚ := 3602879701896397 / 2 ^ 54

/-- The pruning policy, which has seen nothing. -/
def pathPruning : Except HopsResolveError (RelayPruningPolicy AnomalyDetector) :=
  match RelayPruningPolicy.new pathDecay pathAlpha 3 with
  | some pruning => .ok pruning
  | none => .error (.hex "pruning policy: decay factor must be in (0, 1], got 0.9")

/-- The records of a path over the roster, which is built over the topology of the epoch. -/
def buildRosterPathRecords (roster : RelayRoster) (pathCfg : PathFileConfig)
    (file : ClientConfigFile) : Draws ω HopsResolveError (List RelayRecord) := do
  let topo ← orThrow ((buildTopology env.std env.order roster pathCfg.epoch .highThreat
    pathCfg.topologySeed).mapError .topology)
  let pruning ← orThrow pathPruning
  let built ← mapThrow .topology
    (buildClientBoundPath env.os env.std topo roster pruning (pathBuildParams pathCfg file))
  pure built.2

/-- The key that the registry has for the relay of a record. -/
def registeredKey (registry : HashMap (Bytes 32) (ClientHop C)) (record : RelayRecord) :
    Except HopsResolveError (RelayKemPublic C) :=
  match registry.lookup record.id with
  | some hop => .ok hop.kemPublic
  | none => .error (.missingKemRegistryEntry (StoredLedger.hexEncodeBytes record.id.toList))

/-- The hops of a path over the roster that the configuration names. -/
def resolveRosterHops (file : ClientConfigFile) : Draws ω HopsResolveError (List (ClientHop C)) :=
  match file.roster with
  | none => throw .rosterRequired
  | some rosterCfg =>
    if file.hops.isEmpty then throw .kemRegistryRequired
    else do
      let roster ← orThrow ((RelayRoster.loadRosterFromConfig E env.fromBytes env.fromSlice env.read
        rosterCfg).mapError .roster)
      let registry ← orThrow (kemRegistryFromHops env file.hops)
      let pathCfg := file.path.getD .default
      let records ← buildRosterPathRecords env roster pathCfg file
      let publics ← orThrow (records.mapM (registeredKey registry))
      orThrow ((hopsFromBoundPath env.kem records publics ∅).mapError .send)

/-- Is a path built over the roster? -/
def useRosterPath (file : ClientConfigFile) (forceRosterPath : Bool) : Bool :=
  if !file.hops.isEmpty && !forceRosterPath then false
  else file.roster.isSome || file.hops.isEmpty || forceRosterPath

/-- The hops of the path, over the roster or as they are listed. -/
def resolveClientHops (file : ClientConfigFile) (forceRosterPath : Bool) :
    Draws ω HopsResolveError (List (ClientHop C)) :=
  if useRosterPath file forceRosterPath then resolveRosterHops env file
  else orThrow (explicitHopsFromConfig env file.hops)

end Resolve

/-! ## Packets over bound hops -/

section Packets

variable {ρ : Type} {C : Suite ρ} {K : KemKeys C} {hops : List (ClientHop C)}

theorem verifyKemBinding_of_bound {hop : ClientHop C}
    (h : hop.kemCommitment = some (hop.kemPublic.commitment K)) (require : Bool) :
    verifyKemBinding K require hop = .ok () := by
  unfold verifyKemBinding
  rw [h]
  exact if_neg (by simp)

/-- **Over hops that are bound to their keys** nothing is complained of but by the cipher. -/
theorem buildPacketRequireBindings_of_bound (hlength : 2 ≤ hops.length)
    (hbound : ∀ hop ∈ hops, hop.kemCommitment = some (hop.kemPublic.commitment K))
    (payload : List UInt8) (rng : ρ) :
    buildPacketRequireBindings K hops payload rng =
      (build C (hops.map ClientHop.pathHop) payload rng).mapError .crypto := by
  have hchecks : hops.forM (verifyKemBinding K true) = .ok () :=
    forM_eq_ok_iff.mpr fun hop hmem => verifyKemBinding_of_bound (hbound hop hmem) true
  unfold buildPacketRequireBindings buildPacketWithOptions
  rw [if_neg (by omega), hchecks]
  rfl

/-- The relay has the secret of the key that the hop's commitment is of, and the hop's key is no
other key with this commitment. -/
def Serves (K : KemKeys C) (relay : RelayKemSecret C × ReplayCache) (hop : ClientHop C) : Prop :=
  ∃ pk, KeyPair C pk relay.1 ∧ hop.kemCommitment = some (pk.commitment K) ∧
    (pk.commitment K = hop.kemPublic.commitment K → pk = hop.kemPublic)

/-- Relays that have the keys, and have not seen the tags, are ready. -/
theorem ready_of_served {relays : List (RelayKemSecret C × ReplayCache)}
    {path : List (PathHop C)}
    (hkeys : List.Forall₂ (fun relay hop => KeyPair C hop.pk relay.1) relays path) {rng rng' : ρ}
    {headers : List KemHeader} {secrets : List SharedSecret}
    (henc : encapsulateAll C path rng = .ok ((headers, secrets), rng'))
    (hfresh : List.Forall₂ (fun relay secret => relay.2.ctContains (replayTag C secret) = false)
      relays secrets) :
    List.Forall₂ (Ready C) relays (headers.zip secrets) := by
  induction hkeys generalizing rng rng' headers secrets with
  | nil =>
    cases hfresh
    rw [List.zip_nil_right]
    exact .nil
  | cons hkey _ ih =>
    rw [encapsulateAll] at henc
    split at henc
    · cases henc
    · rename_i hhop
      split at henc
      · cases henc
      · rename_i hrest
        obtain ⟨heq, -⟩ := Prod.mk.inj (Except.ok.inj henc)
        obtain ⟨rfl, rfl⟩ := Prod.mk.inj heq
        obtain _ | ⟨hnew, hfresh⟩ := hfresh
        exact .cons ⟨decapsulate_of_encapsulate C hkey hhop, hnew⟩ (ih hrest hfresh)

/-- **The relays that were committed to peel the packet**, each by its own key. -/
theorem peels_of_bound (hlength : 2 ≤ hops.length) (hmax : hops.length ≤ maxHops)
    (hbound : ∀ hop ∈ hops, hop.kemCommitment = some (hop.kemPublic.commitment K))
    {payload : List UInt8} (hpayload : payload.length ≤ deltaLen) {rng rng₁ : ρ}
    {headers : List KemHeader} {secrets : List SharedSecret}
    (henc : encapsulateAll C (hops.map ClientHop.pathHop) rng = .ok ((headers, secrets), rng₁))
    {relays : List (RelayKemSecret C × ReplayCache)}
    (hserves : List.Forall₂ (Serves K) relays hops)
    (hfresh : List.Forall₂ (fun relay secret => relay.2.ctContains (replayTag C secret) = false)
      relays secrets) :
    ∃ packet rng' lastHop out,
      buildPacketRequireBindings K hops payload rng = .ok (packet, rng') ∧
      processAlong C relays packet = .ok (hops.tail.map ClientHop.id ++ [lastHop], out) ∧
      out.delta.toList.take payload.length = payload := by
  have hkeys : List.Forall₂ (fun relay (hop : PathHop C) => KeyPair C hop.pk relay.1) relays
      (hops.map ClientHop.pathHop) := by
    rw [List.forall₂_map_right_iff]
    refine ((List.forall₂_and_left _ _).mpr ⟨hbound, hserves.flip⟩).flip.imp ?_
    rintro relay hop ⟨hhop, pk, hkey, hcommitted, hsame⟩
    obtain rfl := hsame (Option.some.inj (hcommitted.symm.trans hhop))
    exact hkey
  obtain ⟨packet, rng', lastHop, out, hbuild, hrun, hdelta⟩ := delta_processAlong_build C
    (by rw [List.length_map]; exact hlength) (by rw [List.length_map]; exact hmax) hpayload henc
    (ready_of_served hkeys henc hfresh)
  refine ⟨packet, rng', lastHop, out, ?_, ?_, ?_⟩
  · rw [buildPacketRequireBindings_of_bound hlength hbound, hbuild]
    rfl
  · rw [hrun, List.map_tail, List.map_tail, List.map_map]
    rfl
  · rw [hdelta, List.take_left]

end Packets

end Aegis
