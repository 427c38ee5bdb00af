import Aegis.Crypto.Kem
import Aegis.Crypto.Replay

/-!
# Sphinx packets (`sphinx.rs`)

A packet is 8512 bytes: `alpha` (the current hop's KEM header), `beta` (six
routing slots), `gamma` (the MAC of `beta`) and `delta` (the payload).  `build`
wraps a payload for a path of relays, `process` is what one relay does with a
packet: decapsulate, check the MAC, check the replay cache, peel one layer.

* `alpha_assemble`, `beta_assemble`, `gamma_assemble`, `delta_assemble` — the
  four regions of a packet are independent.
* `peel_spec` — what peeling does to each region.
* `process_of_accepted` — a packet whose MAC verifies under the decapsulated
  secret and whose tag is fresh is peeled.
-/

namespace Aegis

open Buffer

/-! ## Layout -/

/-- Maximum path length supported by the fixed routing onion. -/
def maxHops : ℕ := 6

/-- Next hop id, next hop's KEM header, next hop's MAC. -/
def routingSlotLen : ℕ := 32 + kemHeaderLen + 32

/-- The length of the KEM header. -/
def alphaLen : ℕ := kemHeaderLen

/-- The length of the routing slots, one for each hop. -/
def betaLen : ℕ := maxHops * routingSlotLen

/-- The length of the MAC over the slots. -/
def gammaLen : ℕ := 32

/-- The length of the payload. -/
def deltaLen : ℕ := 256

/-- The length of a packet. -/
def sphinxPacketLen : ℕ := alphaLen + betaLen + gammaLen + deltaLen

/-- Where the KEM header stands. -/
def offAlpha : ℕ := 0

/-- Where the routing slots stand. -/
def offBeta : ℕ := alphaLen

/-- Where the MAC stands. -/
def offGamma : ℕ := offBeta + betaLen

/-- Where the payload stands. -/
def offDelta : ℕ := offGamma + gammaLen

/-- What sets the key stream over the slots apart. -/
def streamBeta : List UInt8 := ascii "aegis-beta-stream-v1"

/-- What sets the key stream over the payload apart. -/
def streamDelta : List UInt8 := ascii "aegis-delta-stream-v1"

/-- What sets the MAC apart. -/
def gammaMacDomain : List UInt8 := ascii "aegis-gamma-mac-v1"

/-- What sets the replay tag apart. -/
def replayDomain : List UInt8 := ascii "aegis-replay-tag-v1"

/-- What sets the padding of a peeled layer apart. -/
def peelPadDomain : List UInt8 := ascii "aegis-beta-peel-pad-v1"

/-- A fixed-size Sphinx packet. -/
abbrev SphinxPacket := Bytes sphinxPacketLen

namespace SphinxPacket

/-- The KEM header of a packet. -/
def alpha (p : SphinxPacket) : Bytes alphaLen := Bytes.window p offAlpha alphaLen (by decide)

/-- The routing slots of a packet. -/
def beta (p : SphinxPacket) : Bytes betaLen := Bytes.window p offBeta betaLen (by decide)

/-- The MAC of a packet. -/
def gamma (p : SphinxPacket) : Bytes gammaLen := Bytes.window p offGamma gammaLen (by decide)

/-- The payload of a packet. -/
def delta (p : SphinxPacket) : Bytes deltaLen := Bytes.window p offDelta deltaLen (by decide)

/-- The last lines of `build`: the four regions copied into a zeroed packet. -/
def assemble (alpha : KemHeader) (beta : Bytes betaLen) (gamma : Bytes gammaLen)
    (delta : Bytes deltaLen) : SphinxPacket :=
  ((((Bytes.zero sphinxPacketLen).put offAlpha alpha.toBytes).put offBeta beta.toList).put
    offGamma gamma.toList).put offDelta delta.toList

end SphinxPacket

/-- The result of processing one packet at a mix. -/
inductive Processed where
  | forward (nextHop : Bytes 32) (packet : SphinxPacket)
  | loopReturned
  | drop

variable {ρ : Type} (C : Suite ρ)

/-- One hop in a path used when building a packet. -/
structure PathHop where
  id : Bytes 32
  pk : RelayKemPublic C

/-! ## Streams and MACs -/

/-- The first `len` bytes of the SHA3 stream of a secret: one 32-byte block for
each value of the counter. -/
def keystream (domain : List UInt8) (secret : SharedSecret) (len : ℕ) : List UInt8 :=
  ((List.range ((len + 31) / 32)).flatMap fun counter =>
    (C.sha3 (domain ++ secret.toList ++ leBytes 8 counter)).toList).take len

/-- The key stream of a secret is put over a range of bytes. -/
def streamXorRange {n : ℕ} (buf : Bytes n) (start stop : ℕ) (secret : SharedSecret)
    (domain : List UInt8) : Bytes n :=
  buf.xor start (keystream C domain secret (stop - start))

/-- The bytes that take the place of the slot a hop has peeled off. -/
def peelPad (secret : SharedSecret) (len : ℕ) : List UInt8 :=
  keystream C peelPadDomain secret len

/-- The MAC of a hop over the slots. -/
def computeMac (secret : SharedSecret) (beta : Bytes betaLen) : Bytes gammaLen :=
  C.sha3 (gammaMacDomain ++ secret.toList ++ beta.toList)

/-- The 32-byte replay tag of a per-hop shared secret. -/
def replayTag (secret : SharedSecret) : ReplayTag := C.sha3 (replayDomain ++ secret.toList)

/-- XOR the beta stream of `secrets[i]` into slot `i`. -/
def xorSlot (secrets : List SharedSecret) (beta : Bytes betaLen) (i : ℕ) : Bytes betaLen :=
  streamXorRange C beta (i * routingSlotLen) (i * routingSlotLen + routingSlotLen) secrets[i]!
    streamBeta

/-- The same for each of the first `layers` slots: encryption and decryption alike. -/
def xorSlots (beta : Bytes betaLen) (layers : ℕ) (secrets : List SharedSecret) :
    Bytes betaLen :=
  (List.range layers).foldl (xorSlot C secrets) beta

/-- Each hop's slot is covered by the key stream of its secret. -/
def encryptSlots (beta : Bytes betaLen) (layers : ℕ) (secrets : List SharedSecret) :
    Bytes betaLen :=
  xorSlots C beta layers secrets

/-- The same once more takes it off. -/
def decryptSlots (beta : Bytes betaLen) (layers : ℕ) (secrets : List SharedSecret) :
    Bytes betaLen :=
  xorSlots C beta layers secrets

/-- One peel of `beta`: decrypt the first slot, shift left by one slot, pad the tail. -/
def peelBeta (work : Bytes betaLen) (secret : SharedSecret) : Bytes betaLen :=
  let work := streamXorRange C work 0 routingSlotLen secret streamBeta
  let work := work.move routingSlotLen betaLen 0
  work.put (betaLen - routingSlotLen) (peelPad C secret routingSlotLen)

/-- The MAC the hop after `peels` peels will compute. -/
def macAfterPeels (beta : Bytes betaLen) (secrets : List SharedSecret) (peels : ℕ) :
    Bytes gammaLen :=
  computeMac C secrets[peels]! ((secrets.take peels).foldl (peelBeta C) beta)

/-! ## Building a packet -/

/-- Encapsulate to every hop of the path in turn. -/
def encapsulateAll :
    List (PathHop C) → ρ → Except CryptoError ((List KemHeader × List SharedSecret) × ρ)
  | [], rng => .ok (([], []), rng)
  | hop :: path, rng =>
    match encapsulate C hop.pk rng with
    | .error e => .error e
    | .ok ((hdr, sec), rng) =>
      match encapsulateAll path rng with
      | .error e => .error e
      | .ok ((headers, secrets), rng) => .ok ((hdr :: headers, sec :: secrets), rng)

/-- Slot `i` names hop `i + 1` and carries its header. -/
def placeRoute (ids : List (Bytes 32)) (headers : List KemHeader) (beta : Bytes betaLen) (i : ℕ) :
    Bytes betaLen :=
  (beta.put (i * routingSlotLen) ids[i + 1]!.toList).put (i * routingSlotLen + 32)
    headers[i + 1]!.toBytes

/-- First pass of `build`. -/
def placeRoutes (beta : Bytes betaLen) (layers : ℕ) (ids : List (Bytes 32))
    (headers : List KemHeader) : Bytes betaLen :=
  (List.range layers).foldl (placeRoute ids headers) beta

/-- Copy the MAC for slot `j` into its place. -/
def placeGamma (nextGammas : List (Bytes gammaLen)) (beta : Bytes betaLen) (j : ℕ) :
    Bytes betaLen :=
  beta.put (j * routingSlotLen + 32 + kemHeaderLen) nextGammas[j]!.toList

/-- Copy the MACs computed so far into the slots `lo..layers`. -/
def placeGammas (beta : Bytes betaLen) (lo layers : ℕ) (nextGammas : List (Bytes gammaLen)) :
    Bytes betaLen :=
  (List.range' lo (layers - lo)).foldl (placeGamma nextGammas) beta

/-- One round of the second pass of `build`, for slot `i`. -/
def embedGamma (layers : ℕ) (secrets : List SharedSecret)
    (st : Bytes betaLen × List (Bytes gammaLen)) (i : ℕ) :
    Bytes betaLen × List (Bytes gammaLen) :=
  let beta := placeGammas st.1 (i + 1) layers st.2
  let beta := encryptSlots C beta layers (secrets.take layers)
  let nextGammas := st.2.set i (macAfterPeels C beta secrets (i + 1))
  (decryptSlots C beta layers (secrets.take layers), nextGammas)

/-- Second pass of `build`: the MACs inside-out, last slot first. -/
def embedGammas (beta : Bytes betaLen) (layers : ℕ) (secrets : List SharedSecret) :
    Bytes betaLen × List (Bytes gammaLen) :=
  (List.range layers).reverse.foldl (embedGamma C layers secrets)
    (beta, List.replicate layers (Bytes.zero gammaLen))

/-- The routing header `build` makes from `beta`, a buffer of random bytes. -/
def buildBeta (beta : Bytes betaLen) (layers : ℕ) (ids : List (Bytes 32))
    (headers : List KemHeader) (secrets : List SharedSecret) : Bytes betaLen :=
  let beta := placeRoutes beta layers ids headers
  let beta := encryptSlots C beta layers (secrets.take layers)
  let beta := decryptSlots C beta layers (secrets.take layers)
  let (beta, nextGammas) := embedGammas C beta layers secrets
  let beta := placeGammas beta 0 layers nextGammas
  encryptSlots C beta layers (secrets.take layers)

/-- The payload followed by `fill`. -/
def paddedPayload (payload : List UInt8) (fill : List UInt8) : Bytes deltaLen :=
  ((Bytes.zero deltaLen).put 0 payload).put payload.length fill

/-- Wrap `delta` in the delta stream of every secret. -/
def wrapDelta (delta : Bytes deltaLen) (secrets : List SharedSecret) : Bytes deltaLen :=
  secrets.foldl (fun delta sec => streamXorRange C delta 0 deltaLen sec streamDelta) delta

/-- Build a Sphinx packet along `path` with `payload` in `delta`. -/
def build (path : List (PathHop C)) (payload : List UInt8) (rng : ρ) :
    Except CryptoError (SphinxPacket × ρ) :=
  if path.length < 2 ∨ maxHops < path.length then .error (.malformed "path length")
  else if deltaLen < payload.length then .error (.malformed "payload too long")
  else
    match encapsulateAll C path rng with
    | .error e => .error e
    | .ok ((headers, secrets), rng) =>
      let layers := path.length - 1
      let (noise, rng) := C.fillBytes betaLen rng
      let beta := buildBeta C noise layers (path.map PathHop.id) headers secrets
      let gamma := computeMac C secrets[0]! beta
      let (fill, rng) := C.fillBytes (deltaLen - payload.length) rng
      let delta := wrapDelta C (paddedPayload payload fill.toList) secrets
      .ok (SphinxPacket.assemble headers[0]! beta gamma delta, rng)

/-! ## Processing a packet -/

/-- Verify the integrity MAC over the routing header. -/
def verifyMac (secret : SharedSecret) (packet : SphinxPacket) : Bool :=
  decide (computeMac C secret packet.beta = packet.gamma)

/-- The KEM header, whatever the packet is. -/
def extractKemHeader (packet : SphinxPacket) : Except CryptoError KemHeader :=
  KemHeader.readFrom packet.alpha.toList

/-- The writes of `peel`: shift `beta` left by one slot and pad its tail, put the
next header and MAC in place, take one layer off `delta`. -/
def shiftRegions (out : SphinxPacket) (secret : SharedSecret) (nextHeader : KemHeader)
    (nextGamma : Bytes gammaLen) : SphinxPacket :=
  let out := out.move (offBeta + routingSlotLen) (offBeta + betaLen) offBeta
  let out := out.put (offBeta + (betaLen - routingSlotLen)) (peelPad C secret routingSlotLen)
  let out := out.put offAlpha nextHeader.toBytes
  let out := out.put offGamma nextGamma.toList
  streamXorRange C out offDelta (offDelta + deltaLen) secret streamDelta

/-- Decrypt the first slot in place, read the next hop from it and shift. -/
def peel (packet : SphinxPacket) (secret : SharedSecret) : Except CryptoError Processed :=
  let out := streamXorRange C packet offBeta (offBeta + routingSlotLen) secret streamBeta
  let nextHop := out.window offBeta 32 (by decide)
  match KemHeader.readFrom (slice (offBeta + 32) kemHeaderLen out.toList) with
  | .error e => .error e
  | .ok nextHeader =>
    let nextGamma := out.window (offBeta + 32 + kemHeaderLen) gammaLen (by decide)
    .ok (.forward nextHop (shiftRegions C out secret nextHeader nextGamma))

/-- Process one inbound packet at a mix: the outcome and the cache afterwards. -/
def process (packet : SphinxPacket) (relaySecret : RelayKemSecret C) (replay : ReplayCache) :
    Except CryptoError Processed × ReplayCache :=
  match extractKemHeader packet with
  | .error e => (.error e, replay)
  | .ok header =>
    match relaySecret.decapsulate C header with
    | .error e => (.error e, replay)
    | .ok secret =>
      if verifyMac C secret packet = false then (.error .integrityFailure, replay)
      else
        match replay.checkAndInsert (replayTag C secret) with
        | (false, replay) => (.error .replay, replay)
        | (true, replay) => (peel C packet secret, replay)

/-! ## The regions of a packet -/

namespace SphinxPacket

variable (a : KemHeader) (b : Bytes betaLen) (g : Bytes gammaLen) (d : Bytes deltaLen)

theorem alpha_assemble : (assemble a b g d).alpha.toList = a.toBytes := by
  rw [alpha, Bytes.toList_window, assemble]
  simp only [Bytes.toList_put]
  rw [slice_writeAt_of_disjoint (by left; decide), slice_writeAt_of_disjoint (by left; decide),
    slice_writeAt_of_disjoint (by left; decide)]
  exact slice_writeAt a.length_toBytes (by rw [List.Vector.toList_length]; decide)

theorem beta_assemble : (assemble a b g d).beta = b := by
  apply Bytes.ext_toList
  rw [beta, Bytes.toList_window, assemble]
  simp only [Bytes.toList_put]
  rw [slice_writeAt_of_disjoint (by left; decide), slice_writeAt_of_disjoint (by left; decide)]
  exact slice_writeAt b.toList_length (by
    rw [length_writeAt, List.Vector.toList_length]; decide)

theorem gamma_assemble : (assemble a b g d).gamma = g := by
  apply Bytes.ext_toList
  rw [gamma, Bytes.toList_window, assemble]
  simp only [Bytes.toList_put]
  rw [slice_writeAt_of_disjoint (by left; decide)]
  exact slice_writeAt g.toList_length (by
    rw [length_writeAt, length_writeAt, List.Vector.toList_length]; decide)

theorem delta_assemble : (assemble a b g d).delta = d := by
  apply Bytes.ext_toList
  rw [delta, Bytes.toList_window, assemble]
  simp only [Bytes.toList_put]
  exact slice_writeAt d.toList_length (by
    rw [length_writeAt, length_writeAt, length_writeAt, List.Vector.toList_length]; decide)

end SphinxPacket

/-! ## Streams -/

/-- SHA3 blocks fill a stream of any length. -/
@[simp] theorem length_keystream (domain : List UInt8) (secret : SharedSecret) (len : ℕ) :
    (keystream C domain secret len).length = len := by
  have hblocks : ∀ l : List ℕ, (l.flatMap fun counter =>
      (C.sha3 (domain ++ secret.toList ++ leBytes 8 counter)).toList).length = l.length * 32 := by
    intro l
    induction l with
    | nil => rfl
    | cons c l ih => rw [List.flatMap_cons, List.length_append, ih, List.Vector.toList_length,
        List.length_cons]; omega
  rw [keystream, List.length_take, hblocks, List.length_range]
  omega

@[simp] theorem length_peelPad (secret : SharedSecret) (len : ℕ) :
    (peelPad C secret len).length = len :=
  length_keystream C peelPadDomain secret len

/-- One peel of `beta` shifts it by a slot and appends the pad. -/
theorem toList_peelBeta (b : Bytes betaLen) (s : SharedSecret) :
    (peelBeta C b s).toList = b.toList.drop routingSlotLen ++ peelPad C s routingSlotLen := by
  have hlen : (streamXorRange C b 0 routingSlotLen s streamBeta).toList.length = betaLen :=
    List.Vector.toList_length _
  rw [peelBeta, Bytes.toList_put, Bytes.toList_move,
    writeAt_copyWithin_zero hlen (by decide) (length_peelPad C s routingSlotLen),
    streamXorRange, Bytes.toList_xor, drop_xorAt_of_le]
  rw [length_keystream]
  decide

/-! ## Routing slots -/

/-- What a routing slot says once its stream is off. -/
structure RoutingSlot where
  nextHop : Bytes 32
  header : KemHeader
  gamma : Bytes gammaLen

namespace RoutingSlot

/-- A slot as it stands in the packet. -/
def toBytes (r : RoutingSlot) : List UInt8 :=
  r.nextHop.toList ++ (r.header.toBytes ++ r.gamma.toList)

/-- A slot, from its bytes. -/
def ofBytes (b : Bytes routingSlotLen) : RoutingSlot where
  nextHop := b.window 0 32 (by decide)
  header :=
    { x25519Point := b.window 32 32 (by decide)
      mlkemCt := b.window 64 mlkem768CtLen (by decide) }
  gamma := b.window (32 + kemHeaderLen) gammaLen (by decide)

@[simp] theorem length_toBytes (r : RoutingSlot) : r.toBytes.length = routingSlotLen := by
  simp only [toBytes, List.length_append, List.Vector.toList_length, KemHeader.length_toBytes]
  rfl

theorem toBytes_header_ofBytes (b : Bytes routingSlotLen) :
    (ofBytes b).header.toBytes = slice 32 kemHeaderLen b.toList := by
  simp only [ofBytes, KemHeader.toBytes, Bytes.toList_window]
  exact slice_append_slice 32 32 mlkem768CtLen b.toList

theorem ext_toList {r s : RoutingSlot} (hn : r.nextHop.toList = s.nextHop.toList)
    (hh : r.header = s.header) (hg : r.gamma.toList = s.gamma.toList) : r = s := by
  cases r
  cases s
  rw [mk.injEq]
  exact ⟨Bytes.ext_toList hn, hh, Bytes.ext_toList hg⟩

/-- A slot's fields are read back from its bytes. -/
theorem ofBytes_of_toList {b : Bytes routingSlotLen} {r : RoutingSlot}
    (h : b.toList = r.toBytes) : ofBytes b = r := by
  have hmid : slice 32 kemHeaderLen b.toList = r.header.toBytes := by
    rw [h, toBytes, slice_append_right (by simp), List.Vector.toList_length, Nat.sub_self,
      slice_append_left (by simp), slice_zero_of_length r.header.length_toBytes]
  refine ext_toList ?_ ?_ ?_
  · rw [ofBytes, Bytes.toList_window, h, toBytes, slice_append_left (by simp),
      slice_zero_of_length (by simp)]
  · refine KemHeader.toBytes_injective ?_
    rw [toBytes_header_ofBytes, hmid]
  · rw [ofBytes, Bytes.toList_window, h, toBytes, slice_append_right (by simp),
      slice_append_right (by simp), List.Vector.toList_length, KemHeader.length_toBytes,
      Nat.add_sub_cancel_left, Nat.sub_self, slice_zero_of_length (List.Vector.toList_length _)]

end RoutingSlot

/-- The bytes of the first slot. -/
def firstSlot (beta : Bytes betaLen) : Bytes routingSlotLen :=
  beta.window 0 routingSlotLen (by decide)

@[simp] theorem toList_firstSlot (b : Bytes betaLen) :
    (firstSlot b).toList = slice 0 routingSlotLen b.toList :=
  Bytes.toList_window b 0 routingSlotLen (by decide)

/-- The first slot of `beta`, decrypted. -/
def openSlot (beta : Bytes betaLen) (secret : SharedSecret) : RoutingSlot :=
  .ofBytes (streamXorRange C (firstSlot beta) 0 routingSlotLen secret streamBeta)

/-! ## What peeling and processing do -/

section Regions

variable (out : SphinxPacket) (s : SharedSecret) (h : KemHeader) (g : Bytes gammaLen)

theorem toList_shiftRegions :
    (shiftRegions C out s h g).toList =
      xorAt (writeAt (writeAt (writeAt
        (copyWithin out.toList (offBeta + routingSlotLen) (offBeta + betaLen) offBeta)
        (offBeta + (betaLen - routingSlotLen)) (peelPad C s routingSlotLen))
        offAlpha h.toBytes) offGamma g.toList)
        offDelta (keystream C streamDelta s (offDelta + deltaLen - offDelta)) := by
  rw [shiftRegions, streamXorRange]
  simp only [Bytes.toList_xor, Bytes.toList_put, Bytes.toList_move]

theorem alpha_shiftRegions : (shiftRegions C out s h g).alpha.toList = h.toBytes := by
  rw [SphinxPacket.alpha, Bytes.toList_window, toList_shiftRegions,
    slice_xorAt_of_disjoint (by left; decide), slice_writeAt_of_disjoint (by left; decide)]
  refine slice_writeAt h.length_toBytes ?_
  rw [length_writeAt, length_copyWithin, List.Vector.toList_length]
  decide

theorem beta_shiftRegions :
    (shiftRegions C out s h g).beta.toList =
      writeAt (copyWithin (slice offBeta betaLen out.toList) routingSlotLen betaLen 0)
        (betaLen - routingSlotLen) (peelPad C s routingSlotLen) := by
  have hcopy := slice_copyWithin_inside (a := offBeta) (n := betaLen) (s := routingSlotLen)
    (e := betaLen) 0 out.toList (by decide) le_rfl
  rw [SphinxPacket.beta, Bytes.toList_window, toList_shiftRegions,
    slice_xorAt_of_disjoint (by left; decide), slice_writeAt_of_disjoint (by left; decide),
    slice_writeAt_of_disjoint (by right; rw [h.length_toBytes]; decide),
    slice_writeAt_inside _ _ (Nat.le_add_right _ _), Nat.add_sub_cancel_left]
  rw [Nat.add_zero] at hcopy
  rw [hcopy]

theorem gamma_shiftRegions : (shiftRegions C out s h g).gamma = g := by
  apply Bytes.ext_toList
  rw [SphinxPacket.gamma, Bytes.toList_window, toList_shiftRegions,
    slice_xorAt_of_disjoint (by left; decide)]
  refine slice_writeAt g.toList_length ?_
  rw [length_writeAt, length_writeAt, length_copyWithin, List.Vector.toList_length]
  decide

theorem delta_shiftRegions :
    (shiftRegions C out s h g).delta.toList =
      xorAt (slice offDelta deltaLen out.toList) 0 (keystream C streamDelta s deltaLen) := by
  rw [SphinxPacket.delta, Bytes.toList_window, toList_shiftRegions,
    slice_xorAt_inside _ _ le_rfl, Nat.sub_self, Nat.add_sub_cancel_left,
    slice_writeAt_of_disjoint (by right; rw [g.toList_length]; decide),
    slice_writeAt_of_disjoint (by right; rw [h.length_toBytes]; decide),
    slice_writeAt_of_disjoint (by right; rw [length_peelPad]; decide),
    slice_copyWithin_of_disjoint (by right; decide)]

end Regions

/-- **Peeling, region by region**: the next hop, header and MAC come from the
opened slot, `beta` is shifted, and one stream comes off `delta`. -/
theorem peel_spec (p : SphinxPacket) (s : SharedSecret) :
    ∃ q : SphinxPacket,
      peel C p s = .ok (.forward (openSlot C p.beta s).nextHop q) ∧
      q.alpha.toList = (openSlot C p.beta s).header.toBytes ∧
      q.beta = peelBeta C p.beta s ∧
      q.gamma = (openSlot C p.beta s).gamma ∧
      q.delta = streamXorRange C p.delta 0 deltaLen s streamDelta := by
  -- the packet after the first slot is decrypted in place
  obtain ⟨out, hout⟩ : ∃ out, out =
    streamXorRange C p offBeta (offBeta + routingSlotLen) s streamBeta := ⟨_, rfl⟩
  have hxor : out.toList =
      xorAt p.toList offBeta (keystream C streamBeta s routingSlotLen) := by
    rw [hout, streamXorRange, Bytes.toList_xor, Nat.add_sub_cancel_left]
  have hbeta : slice offBeta betaLen out.toList =
      (streamXorRange C p.beta 0 routingSlotLen s streamBeta).toList := by
    rw [hxor, slice_xorAt_inside _ _ le_rfl, Nat.sub_self, streamXorRange, Bytes.toList_xor]
    rfl
  have hslot : slice offBeta routingSlotLen out.toList =
      (streamXorRange C (firstSlot p.beta) 0 routingSlotLen s streamBeta).toList := by
    rw [hxor, slice_xorAt_inside _ _ le_rfl, Nat.sub_self, streamXorRange, Bytes.toList_xor,
      toList_firstSlot, SphinxPacket.beta, Bytes.toList_window, slice_slice (by decide)]
    rfl
  have hread : ∀ a k, a + k ≤ routingSlotLen → slice (offBeta + a) k out.toList =
      slice a k (streamXorRange C (firstSlot p.beta) 0 routingSlotLen s streamBeta).toList := by
    intro a k h
    rw [← hslot, slice_slice h]
  have hhdr : slice (offBeta + 32) kemHeaderLen out.toList =
      (openSlot C p.beta s).header.toBytes := by
    rw [hread _ _ (by decide), openSlot, RoutingSlot.toBytes_header_ofBytes]
  have hhop : out.window offBeta 32 (by decide) = (openSlot C p.beta s).nextHop :=
    Bytes.ext_toList (hread 0 32 (by decide))
  have hgam : out.window (offBeta + 32 + kemHeaderLen) gammaLen (by decide) =
      (openSlot C p.beta s).gamma :=
    Bytes.ext_toList (hread (32 + kemHeaderLen) gammaLen (by decide))
  refine ⟨shiftRegions C out s (openSlot C p.beta s).header (openSlot C p.beta s).gamma,
    ?_, alpha_shiftRegions .., ?_, gamma_shiftRegions .., ?_⟩
  · simp only [peel, ← hout, hhdr, KemHeader.readFrom_toBytes, hhop, hgam]
  · apply Bytes.ext_toList
    rw [beta_shiftRegions, hbeta, peelBeta, Bytes.toList_put, Bytes.toList_move]
  · apply Bytes.ext_toList
    rw [delta_shiftRegions, hxor, slice_xorAt_of_disjoint, streamXorRange, Bytes.toList_xor]
    · rfl
    · right
      rw [length_keystream]
      decide

theorem process_of_accepted {p : SphinxPacket} {sk : RelayKemSecret C} {cache : ReplayCache}
    {header : KemHeader} {secret : SharedSecret} (halpha : p.alpha.toList = header.toBytes)
    (hdec : sk.decapsulate C header = .ok secret)
    (hmac : p.gamma = computeMac C secret p.beta)
    (hfresh : cache.ctContains (replayTag C secret) = false) :
    (process C p sk cache).1 = peel C p secret := by
  have hhdr : extractKemHeader p = .ok header := by
    rw [extractKemHeader, halpha, KemHeader.readFrom_toBytes]
  have hver : verifyMac C secret p = true := by
    rw [verifyMac, hmac, decide_eq_true rfl]
  simp only [process, hhdr, hdec, hver, ReplayCache.checkAndInsert_of_not_contains hfresh,
    Bool.true_eq_false, if_false]

end Aegis
