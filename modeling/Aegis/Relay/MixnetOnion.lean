import Aegis.Node.ExitSink
import Aegis.Relay.Mixnet

/-!
# Onions in the network

What a client builds is determined by what it draws.  Under the keys of the relays every hop of its
path opens one layer, as long as it has not seen the tag, and hands the packet on.

* `Onion.toList_lastHop` — what the last hop takes for the next one is noise.
* `carried_of_build` — a built packet is ready for its first hop.
* `Carried.process` — **what a hop does with a packet on its way.**
* `mem_order_process` — the hop remembers its tag, and no other new one.
-/

namespace Aegis

open Buffer

/-! ## The cache -/

/-- An insertion forgets tags and adds its own. -/
theorem ReplayCache.mem_order_checkAndInsert {c : ReplayCache} {tag : ReplayTag}
    {e : UInt32 × ReplayTag} (h : e ∈ (c.checkAndInsert tag).2.order) :
    e ∈ c.order ∨ e.2 = tag := by
  cases hscan : c.ctContains tag with
  | true =>
    rw [checkAndInsert_of_contains hscan] at h
    exact Or.inl h
  | false =>
    rw [checkAndInsert_of_not_contains hscan] at h
    rcases List.mem_append.mp h with h | h
    · exact Or.inl (c.pressureAdvance_shrinks.1.subset
        (c.pressureAdvance.makeRoom_shrinks.1.subset h))
    · rw [List.mem_singleton.mp h]
      exact Or.inr rfl

/-- A tag that is not in the order is not found. -/
theorem ReplayCache.ctContains_of_not_mem {c : ReplayCache} {tag : ReplayTag}
    (h : ∀ e ∈ c.order, e.2 ≠ tag) : c.ctContains tag = false := by
  rw [Bool.eq_false_iff, ne_eq, ctContains_iff]
  intro hmem
  obtain ⟨e, he, htag⟩ := List.mem_map.mp hmem
  exact h e (List.mem_of_mem_take he) htag

variable {ρ : Type} {C : Suite ρ}

/-- **A packet that is accepted** leaves its tag. -/
theorem process_snd_of_accepted {p : SphinxPacket} {sk : RelayKemSecret C} (cache : ReplayCache)
    {header : KemHeader} {secret : SharedSecret} (halpha : p.alpha.toList = header.toBytes)
    (hdec : sk.decapsulate C header = .ok secret) (hmac : p.gamma = computeMac C secret p.beta) :
    (process C p sk cache).2 = (cache.checkAndInsert (replayTag C secret)).2 := by
  have hhdr : extractKemHeader p = .ok header := by
    rw [extractKemHeader, halpha, KemHeader.readFrom_toBytes]
  have hver : verifyMac C secret p = true := by
    rw [verifyMac, hmac, decide_eq_true rfl]
  unfold process
  simp only [hhdr, hdec, hver, Bool.true_eq_false, if_false]
  rcases cache.checkAndInsert (replayTag C secret) with ⟨_ | _, replay⟩ <;> rfl

/-- A path is encapsulated to hop by hop. -/
theorem decapsulate_of_encapsulateAll {path : List (PathHop C)} {rng rng' : ρ}
    {headers : List KemHeader} {secrets : List SharedSecret}
    (henc : encapsulateAll C path rng = .ok ((headers, secrets), rng')) {h : ℕ} {hop : PathHop C}
    (hhop : path[h]? = some hop) {sk : RelayKemSecret C} (hkey : KeyPair C hop.pk sk) :
    sk.decapsulate C headers[h]! = .ok secrets[h]! := by
  induction path generalizing rng rng' headers secrets h with
  | nil => cases hhop
  | cons first path ih =>
    cases h with
    | zero =>
      obtain rfl := Option.some.inj hhop
      obtain ⟨rng₁, hfirst⟩ := encapsulate_of_encapsulateAll C henc
      exact decapsulate_of_encapsulate C hkey hfirst
    | succ h =>
      unfold encapsulateAll at henc
      split at henc
      · cases henc
      · split at henc
        · cases henc
        · rename_i hrest
          obtain ⟨heq, -⟩ := Prod.mk.inj (Except.ok.inj henc)
          obtain ⟨rfl, rfl⟩ := Prod.mk.inj heq
          have hhop' : path[h]? = some hop := by
            rwa [List.getElem?_cons_succ] at hhop
          simpa using ih hrest hhop'

/-! ## What a client draws -/

/-- What `build` makes a packet of. -/
structure Onion where
  headers : List KemHeader
  secrets : List SharedSecret
  beta : Bytes betaLen
  delta : Bytes deltaLen

/-! ## What the last hop reads

The slots behind the path are what the generator drew. -/

section LastSlot

variable (C)

theorem drop_placeGammas (b : Bytes betaLen) (lo layers : ℕ) (gs : List (Bytes gammaLen)) :
    (placeGammas b lo layers gs).toList.drop (layers * routingSlotLen) =
      b.toList.drop (layers * routingSlotLen) := by
  refine Run.foldl_preserves (fun x : Bytes betaLen => x.toList.drop (layers * routingSlotLen) =
    b.toList.drop (layers * routingSlotLen)) (fun x j hj hx => ?_) rfl
  rw [List.mem_range'_1] at hj
  exact (drop_eq_of_drop_eq (drop_placeGamma gs x j)
    (Nat.mul_le_mul_right _ (by omega))).trans hx

theorem drop_embedGammas (b : Bytes betaLen) (layers : ℕ) (secrets : List SharedSecret) :
    (embedGammas C b layers secrets).1.toList.drop (layers * routingSlotLen) =
      b.toList.drop (layers * routingSlotLen) := by
  refine Run.foldl_preserves (fun st : Bytes betaLen × List (Bytes gammaLen) =>
    st.1.toList.drop (layers * routingSlotLen) = b.toList.drop (layers * routingSlotLen))
    (fun st i _ hst => ?_) rfl
  rw [embedGamma_fst, drop_placeGammas, hst]

theorem drop_placeRoutes (b : Bytes betaLen) (layers : ℕ) (ids : List (Bytes 32))
    (headers : List KemHeader) :
    (placeRoutes b layers ids headers).toList.drop (layers * routingSlotLen) =
      b.toList.drop (layers * routingSlotLen) := by
  refine Run.foldl_preserves (fun x : Bytes betaLen => x.toList.drop (layers * routingSlotLen) =
    b.toList.drop (layers * routingSlotLen)) (fun x i hi hx => ?_) rfl
  rw [List.mem_range] at hi
  rw [toList_placeRoute, drop_writeAt_of_le, drop_writeAt_of_le, hx]
  · rw [List.Vector.toList_length, routingSlotLen_eq]
    omega
  · rw [KemHeader.length_toBytes, routingSlotLen_eq, kemHeaderLen_eq]
    omega

/-- **Behind the path** the routing header is the noise it was made from. -/
theorem drop_buildBeta (noise : Bytes betaLen) (layers : ℕ) (ids : List (Bytes 32))
    (headers : List KemHeader) (secrets : List SharedSecret) :
    (buildBeta C noise layers ids headers secrets).toList.drop (layers * routingSlotLen) =
      noise.toList.drop (layers * routingSlotLen) := by
  unfold buildBeta encryptSlots decryptSlots
  dsimp only
  rw [xorSlots_xorSlots]
  rcases hst : embedGammas C (placeRoutes noise layers ids headers) layers secrets with ⟨b, gs⟩
  have hembed := drop_embedGammas C (placeRoutes noise layers ids headers) layers secrets
  rw [hst] at hembed
  rw [drop_xorSlots, drop_placeGammas, hembed, drop_placeRoutes]

end LastSlot

namespace Onion

/-- What the last hop takes for the next one. -/
def lastHop (C : Suite ρ) (o : Onion) : RelayId :=
  (openSlot C ((o.secrets.take (o.secrets.length - 1)).foldl (peelBeta C) o.beta)
    o.secrets[o.secrets.length - 1]!).nextHop

/-- **What the last hop takes for the next one** is noise. -/
theorem toList_lastHop {o : Onion} {noise : Bytes betaLen} {layers : ℕ} {ids : List (Bytes 32)}
    (hbeta : o.beta = buildBeta C noise layers ids o.headers o.secrets)
    (hlen : o.secrets.length = layers + 1) (hmax : layers < maxHops) :
    (o.lastHop C).toList = slice 0 32 (xorAt (slice (layers * routingSlotLen) routingSlotLen
      noise.toList) 0 (keystream C streamBeta o.secrets[layers]! routingSlotLen)) := by
  have htake : (o.secrets.take layers).length = layers := List.length_take_of_le (by omega)
  have hlast : o.secrets.length - 1 = layers := by omega
  rw [lastHop, hlast, openSlot, RoutingSlot.ofBytes, Bytes.toList_window, streamXorRange,
    Bytes.toList_xor, firstSlot_foldl_peelBeta C o.beta (by omega), htake, hbeta, Nat.sub_zero,
    slice_of_drop_eq (drop_buildBeta C noise layers ids o.headers o.secrets) le_rfl]

end Onion

namespace Mixnet

variable {ι κ : Type} (net : Mixnet C ι κ)

/-- The onion of a client, if the encapsulations succeed. -/
def onion (k : κ) : Option Onion :=
  match encapsulateAll C (net.hops k) (net.clientRng k) with
  | .error _ => none
  | .ok ((headers, secrets), rng) =>
    some
      ⟨headers, secrets,
        buildBeta C (C.fillBytes betaLen rng).1 ((net.hops k).length - 1)
          ((net.hops k).map PathHop.id) headers secrets,
        paddedPayload (net.payload k) (C.fillBytes (deltaLen - (net.payload k).length)
          (C.fillBytes betaLen rng).2).1.toList⟩

/-- **What the network is trusted with.**  The relays hold the keys that clients build for, every
hop of a path knows the next one, the last hop has an exit sink and what it takes for the next hop
is nobody, and no two layers for one relay have the same tag. -/
structure Sound (A : Aead) : Prop where
  aead : A.Correct
  keys : ∀ i, KeyPair C (net.publicKey i) (net.node i).secret
  roster : ∀ k h i j, (net.path k)[h]? = some i → (net.path k)[h + 1]? = some j →
    net.peerTable i (net.id j) = some j ∧ isCoverSinkHop (net.id j) = false
  exit : ∀ k i (o : Onion), (net.path k).getLast? = some i → net.onion k = some o →
    net.exitTx i = true ∧ net.peerTable i (o.lastHop C) = none ∧
      isCoverSinkHop (o.lastHop C) = false
  tags : ∀ k (h : ℕ) k' (h' : ℕ) i (o o' : Onion),
    (net.path k)[h]? = some i → (net.path k')[h']? = some i →
    net.onion k = some o → net.onion k' = some o' →
    replayTag C o.secrets[h]! = replayTag C o'.secrets[h']! → k = k' ∧ h = h'

/-- The limits `build` checks. -/
def Fits (k : κ) : Prop :=
  2 ≤ (net.path k).length ∧ (net.path k).length ≤ maxHops ∧ (net.payload k).length ≤ deltaLen

/-- The packet of client `k` when `n` hops have opened their layers. -/
structure Carried (k : κ) (n : ℕ) (o : Onion) (p : SphinxPacket) : Prop where
  onion : net.onion k = some o
  fits : net.Fits k
  atHop : n < (net.path k).length → AtHop C o.headers o.secrets o.beta o.delta n p
  delta : p.delta = wrapDelta C o.delta (o.secrets.drop n)

/-- The next hop that the `n`th hop names. -/
def named (k : κ) (n : ℕ) (o : Onion) : RelayId :=
  match (net.path k)[n]? with
  | some j => net.id j
  | none => o.lastHop C

variable {net}

theorem length_hops (k : κ) : (net.hops k).length = (net.path k).length := List.length_map _

/-- The parts of an onion. -/
theorem onion_spec {k : κ} {o : Onion} (h : net.onion k = some o) :
    ∃ rng noise, encapsulateAll C (net.hops k) (net.clientRng k) =
        .ok ((o.headers, o.secrets), rng) ∧
      o.secrets.length = (net.path k).length ∧
      o.beta = buildBeta C noise ((net.path k).length - 1) ((net.hops k).map PathHop.id) o.headers
        o.secrets ∧
      ((net.payload k).length ≤ deltaLen → net.payload k <+: o.delta.toList) := by
  unfold onion at h
  split at h
  · cases h
  · rename_i headers secrets rng henc
    obtain rfl := Option.some.inj h
    obtain ⟨-, hsecrets⟩ := length_encapsulateAll C henc
    rw [length_hops] at hsecrets
    refine ⟨rng, (C.fillBytes betaLen rng).1, henc, hsecrets, by rw [length_hops], fun hfit => ?_⟩
    rw [toList_paddedPayload (by rw [List.Vector.toList_length]; omega)]
    exact List.prefix_append _ _

/-- **A built packet** is ready for its first hop. -/
theorem carried_of_build {k : κ} {packet : SphinxPacket} {rng' : ρ}
    (h : build C (net.hops k) (net.payload k) (net.clientRng k) = .ok (packet, rng')) :
    ∃ o, net.Carried k 0 o packet := by
  have hlen : (net.hops k).length = (net.path k).length := length_hops k
  have hfits : net.Fits k := by
    unfold build at h
    split at h
    · cases h
    · split at h
      · cases h
      · unfold Fits
        omega
  obtain ⟨h2, hmax, hpay⟩ := hfits
  obtain ⟨headers, secrets, rng₁, henc⟩ := encapsulateAll_of_build C h
  obtain ⟨packet', rng₂, hbuild, hat⟩ := atHop_build C (hlen ▸ h2) (hlen ▸ hmax) hpay henc
  obtain ⟨rfl, -⟩ := Prod.mk.inj (Except.ok.inj (h.symm.trans hbuild))
  have honion : net.onion k = some
      ⟨headers, secrets,
        buildBeta C (C.fillBytes betaLen rng₁).1 ((net.hops k).length - 1)
          ((net.hops k).map PathHop.id) headers secrets,
        paddedPayload (net.payload k) (C.fillBytes (deltaLen - (net.payload k).length)
          (C.fillBytes betaLen rng₁).2).1.toList⟩ := by
    unfold onion
    simp only [henc]
  exact ⟨_, honion, ⟨h2, hmax, hpay⟩, fun _ => hat, hat.delta⟩

/-- **What a hop does with a packet on its way**: it names the next hop and sends on the packet with
one layer less, and its cache takes the tag. -/
theorem Carried.process {k : κ} {n : ℕ} {o : Onion} {p : SphinxPacket} {i : ι} {A : Aead}
    (h : net.Carried k n o p) (hsound : net.Sound A) (hi : (net.path k)[n]? = some i)
    {cache : ReplayCache} (hfresh : cache.ctContains (replayTag C o.secrets[n]!) = false) :
    ∃ q, (Aegis.process C p (net.node i).secret cache).1 =
        .ok (.forward (net.named k (n + 1) o) q) ∧
      net.Carried k (n + 1) o q ∧
      (Aegis.process C p (net.node i).secret cache).2 =
        (cache.checkAndInsert (replayTag C o.secrets[n]!)).2 := by
  obtain ⟨hlt, -⟩ := List.getElem?_eq_some_iff.mp hi
  obtain ⟨rng, noise, henc, hsecrets, hbeta, -⟩ := onion_spec h.onion
  obtain ⟨h2, hmax, hpay⟩ := h.fits
  have hhop : (net.hops k)[n]? = some ⟨net.id i, net.publicKey i⟩ := by
    unfold hops
    rw [List.getElem?_map, hi]
    rfl
  have hat := h.atHop hlt
  have hdec := decapsulate_of_encapsulateAll henc hhop (hsound.keys i)
  have hcache := process_snd_of_accepted cache hat.alpha hdec
    (show p.gamma = computeMac C o.secrets[n]! p.beta by rw [hat.gamma, macAfterPeels, hat.beta])
  have hready : Ready C ((net.node i).secret, cache) (o.headers[n]!, o.secrets[n]!) :=
    ⟨hdec, hfresh⟩
  unfold named
  by_cases hnext : n + 1 < (net.path k).length
  · -- a hop with a successor
    obtain ⟨q, hproc, hat'⟩ := hat.step hbeta (by omega) (by omega) (by omega) hready
    refine ⟨q, ?_, ⟨h.onion, h.fits, fun _ => hat', hat'.delta⟩, hcache⟩
    have hid : ((net.hops k).map PathHop.id)[n + 1]! = net.id ((net.path k)[n + 1]) := by
      unfold hops
      rw [List.map_map, getElem!_pos _ _ (by rw [List.length_map]; exact hnext), List.getElem_map]
      rfl
    rw [hproc, List.getElem?_eq_getElem hnext, hid]
  · -- the last hop
    obtain ⟨q, hproc, -, -, -, hdelta⟩ := hat.process (by omega) hready
    refine ⟨q, ?_, ⟨h.onion, h.fits, fun hlt => absurd hlt hnext, hdelta⟩, hcache⟩
    have hlast : o.secrets.length - 1 = n := by omega
    rw [hproc, List.getElem?_eq_none (by omega)]
    simp only [Onion.lastHop, hlast, hat.beta]

/-- **What has left the last hop** starts with the payload. -/
theorem Carried.payload {k : κ} {o : Onion} {p : SphinxPacket}
    (h : net.Carried k (net.path k).length o p) : net.payload k <+: packetDelta p := by
  obtain ⟨rng, noise, henc, hsecrets, -, hdelta⟩ := onion_spec h.onion
  have hp : p.delta = o.delta := by
    rw [h.delta, List.drop_eq_nil_of_le hsecrets.le]
    rfl
  have hpacket : packetDelta p = p.delta.toList := rfl
  rw [hpacket, hp]
  exact hdelta h.fits.2.2

end Mixnet

end Aegis
