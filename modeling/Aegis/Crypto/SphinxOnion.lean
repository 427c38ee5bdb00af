import Aegis.Crypto.Sphinx
import Aegis.Lib.Run

/-!
# A built packet travels its whole path

`build` computes the inner MACs inside-out, by simulating the peels of the hops
in between on a routing header whose outer MACs are still missing.  That works
because `k` peels only look at what lies behind the first `k` slots
(`toList_foldl_peelBeta`), and the MACs still missing lie before it.

* `macAfterPeels_congr` — a simulated MAC depends on the tail of `beta` alone.
* `embedGamma_gammasFrom`, `gammasFrom_embedGammas` — one round of the second
  pass, and the whole pass: every MAC placed is the one its hop will compute.
* `decrypted_slot_buildBeta` — what each slot of the finished header says.
* `AtHop.process` — the packet that reaches a hop is accepted there, and the
  packet sent on is the one the next hop expects.
* `processAlong_build` — **every hop forwards to its successor and the payload
  comes out at the end.**
-/

namespace Aegis

open Buffer

theorem routingSlotLen_eq : routingSlotLen = 1184 := rfl
theorem kemHeaderLen_eq : kemHeaderLen = 1120 := rfl
theorem betaLen_eq : betaLen = 7104 := rfl
theorem maxHops_eq : maxHops = 6 := rfl
theorem gammaLen_eq : gammaLen = 32 := rfl

variable {ρ : Type} (C : Suite ρ)

/-! ## Many peels -/

/-- `k` peels drop the first `k` slots and append one pad each. -/
theorem toList_foldl_peelBeta (secrets : List SharedSecret) (b : Bytes betaLen)
    (h : secrets.length ≤ maxHops) :
    (secrets.foldl (peelBeta C) b).toList =
      b.toList.drop (secrets.length * routingSlotLen) ++
        secrets.flatMap fun s => peelPad C s routingSlotLen := by
  induction secrets generalizing b with
  | nil => simp
  | cons s secrets ih =>
    have hlen : secrets.length ≤ maxHops := by
      rw [List.length_cons] at h
      omega
    have hcut : secrets.length * routingSlotLen ≤ (b.toList.drop routingSlotLen).length := by
      rw [List.length_drop, List.Vector.toList_length, betaLen_eq, routingSlotLen_eq]
      rw [List.length_cons, maxHops_eq] at h
      omega
    rw [List.foldl_cons, ih _ hlen, toList_peelBeta, List.drop_append_of_le_length hcut,
      List.drop_drop, List.flatMap_cons, List.append_assoc, List.length_cons, Nat.succ_mul,
      Nat.add_comm routingSlotLen]

/-- **A simulated MAC depends only on what lies behind the peeled slots.** -/
theorem macAfterPeels_congr {b b' : Bytes betaLen} {secrets : List SharedSecret} {k : ℕ}
    (hk : k ≤ secrets.length) (hs : k ≤ maxHops)
    (h : b.toList.drop (k * routingSlotLen) = b'.toList.drop (k * routingSlotLen)) :
    macAfterPeels C b secrets k = macAfterPeels C b' secrets k := by
  have hlen : (secrets.take k).length = k := List.length_take_of_le hk
  have hpeels : (secrets.take k).foldl (peelBeta C) b = (secrets.take k).foldl (peelBeta C) b' := by
    apply Bytes.ext_toList
    rw [toList_foldl_peelBeta C _ _ (by omega), toList_foldl_peelBeta C _ _ (by omega), hlen, h]
  rw [macAfterPeels, macAfterPeels, hpeels]

/-- After `k` peels the first slot is the `k`-th slot of the header built. -/
theorem firstSlot_foldl_peelBeta {secrets : List SharedSecret} (b : Bytes betaLen)
    (h : secrets.length < maxHops) :
    (firstSlot (secrets.foldl (peelBeta C) b)).toList =
      slice (secrets.length * routingSlotLen) routingSlotLen b.toList := by
  have hle : 0 + routingSlotLen ≤ (b.toList.drop (secrets.length * routingSlotLen)).length := by
    rw [List.length_drop, List.Vector.toList_length, betaLen_eq, routingSlotLen_eq]
    rw [maxHops_eq] at h
    omega
  rw [toList_firstSlot, toList_foldl_peelBeta C _ _ (by omega), slice_append_left hle]
  simp [slice]

/-! ## The slot streams -/

theorem toList_xorSlot (secrets : List SharedSecret) (b : Bytes betaLen) (i : ℕ) :
    (xorSlot C secrets b i).toList =
      xorAt b.toList (i * routingSlotLen) (keystream C streamBeta secrets[i]! routingSlotLen) := by
  rw [xorSlot, streamXorRange, Bytes.toList_xor, Nat.add_sub_cancel_left]

/-- Encrypting and decrypting the slots are the same XOR, so they cancel. -/
theorem xorSlots_xorSlots (b : Bytes betaLen) (layers : ℕ) (secrets : List SharedSecret) :
    xorSlots C (xorSlots C b layers secrets) layers secrets = b := by
  refine Run.foldl_foldl_of_involutive ?_ ?_ (List.range layers) b
  · intro b i j
    apply Bytes.ext_toList
    simp only [toList_xorSlot]
    exact xorAt_comm ..
  · intro b i
    apply Bytes.ext_toList
    rw [toList_xorSlot, toList_xorSlot, xorAt_xorAt]

/-- The streams of the first `layers` slots leave the others alone. -/
theorem drop_xorSlots (b : Bytes betaLen) (layers : ℕ) (secrets : List SharedSecret) :
    (xorSlots C b layers secrets).toList.drop (layers * routingSlotLen) =
      b.toList.drop (layers * routingSlotLen) := by
  refine Run.foldl_preserves
    (fun x : Bytes betaLen => x.toList.drop (layers * routingSlotLen) =
      b.toList.drop (layers * routingSlotLen)) ?_ rfl
  intro x i hi hx
  rw [List.mem_range] at hi
  rw [toList_xorSlot, drop_xorAt_of_le, hx]
  rw [length_keystream, routingSlotLen_eq]
  omega

/-- Slot by slot, the streams see only the slot. -/
theorem slice_xorSlots (b : Bytes betaLen) {layers j : ℕ} (secrets : List SharedSecret)
    (hj : j < layers) :
    slice (j * routingSlotLen) routingSlotLen (xorSlots C b layers secrets).toList =
      xorAt (slice (j * routingSlotLen) routingSlotLen b.toList) 0
        (keystream C streamBeta secrets[j]! routingSlotLen) := by
  induction layers with
  | zero => omega
  | succ n ih =>
    rw [xorSlots, List.range_succ, List.foldl_append, List.foldl_cons, List.foldl_nil,
      ← xorSlots, toList_xorSlot]
    by_cases h : j = n
    · rw [h, slice_xorAt_inside _ _ le_rfl, Nat.sub_self,
        slice_of_drop_eq (drop_xorSlots C b n secrets) le_rfl]
    · rw [slice_xorAt_of_disjoint, ih (by omega)]
      left
      rw [routingSlotLen_eq]
      omega

/-- What the streams make of the tail depends on the tail alone. -/
theorem drop_xorSlots_congr {b b' : Bytes betaLen} (layers : ℕ) (secrets : List SharedSecret)
    {k : ℕ} (h : b.toList.drop (k * routingSlotLen) = b'.toList.drop (k * routingSlotLen)) :
    (xorSlots C b layers secrets).toList.drop (k * routingSlotLen) =
      (xorSlots C b' layers secrets).toList.drop (k * routingSlotLen) := by
  refine List.foldl_rel
    (r := fun x y : Bytes betaLen =>
      x.toList.drop (k * routingSlotLen) = y.toList.drop (k * routingSlotLen)) h ?_
  intro i _ x y hxy
  rw [toList_xorSlot, toList_xorSlot]
  by_cases hi : k ≤ i
  · refine drop_xorAt_congr hxy (by simp only [List.Vector.toList_length]) ?_
    exact Nat.mul_le_mul_right _ hi
  · have hle : i * routingSlotLen +
        (keystream C streamBeta secrets[i]! routingSlotLen).length ≤ k * routingSlotLen := by
      rw [length_keystream, routingSlotLen_eq]
      omega
    rw [drop_xorAt_of_le hle, drop_xorAt_of_le hle, hxy]

/-! ## Placing routes and MACs -/

/-- Where the MAC of slot `j` starts. -/
theorem gammaOff_eq (j : ℕ) : j * routingSlotLen + 32 + kemHeaderLen = j * 1184 + 1152 := by
  rw [routingSlotLen_eq, kemHeaderLen_eq]

theorem toList_placeGamma (gs : List (Bytes gammaLen)) (b : Bytes betaLen) (j : ℕ) :
    (placeGamma gs b j).toList =
      writeAt b.toList (j * routingSlotLen + 32 + kemHeaderLen) gs[j]!.toList :=
  Bytes.toList_put ..

/-- A MAC already in place is placed again without effect. -/
theorem placeGammas_of_placed {b : Bytes betaLen} {lo layers : ℕ} {gs : List (Bytes gammaLen)}
    (h : ∀ j, lo ≤ j → j < layers →
      slice (j * routingSlotLen + 32 + kemHeaderLen) gammaLen b.toList = gs[j]!.toList) :
    placeGammas b lo layers gs = b := by
  refine Run.foldl_preserves (fun x => x = b) ?_ rfl
  rintro x j hj rfl
  rw [List.mem_range'_1] at hj
  apply Bytes.ext_toList
  rw [toList_placeGamma, ← h j hj.1 (by omega), writeAt_slice]

/-- A window away from the MACs placed is unchanged. -/
theorem slice_placeGammas_of_disjoint {b : Bytes betaLen} {lo layers a n : ℕ}
    {gs : List (Bytes gammaLen)}
    (h : ∀ j, lo ≤ j → j < layers →
      a + n ≤ j * routingSlotLen + 32 + kemHeaderLen ∨
        j * routingSlotLen + 32 + kemHeaderLen + gammaLen ≤ a) :
    slice a n (placeGammas b lo layers gs).toList = slice a n b.toList := by
  refine Run.foldl_preserves
    (fun x : Bytes betaLen => slice a n x.toList = slice a n b.toList) ?_ rfl
  intro x j hj hx
  rw [List.mem_range'_1] at hj
  rw [toList_placeGamma, slice_writeAt_of_disjoint, hx]
  rw [List.Vector.toList_length]
  exact h j hj.1 (by omega)

theorem placeGammas_cons {b : Bytes betaLen} {lo layers : ℕ} {gs : List (Bytes gammaLen)}
    (h : lo < layers) :
    placeGammas b lo layers gs = placeGammas (placeGamma gs b lo) (lo + 1) layers gs := by
  have hlen : layers - lo = layers - (lo + 1) + 1 := by omega
  rw [placeGammas, hlen, List.range'_succ, List.foldl_cons, placeGammas]

/-- The MACs placed are read back. -/
theorem slice_placeGammas (b : Bytes betaLen) {lo layers j : ℕ} (gs : List (Bytes gammaLen))
    (hlo : lo ≤ j) (hj : j < layers) (hmax : layers ≤ maxHops) :
    slice (j * routingSlotLen + 32 + kemHeaderLen) gammaLen (placeGammas b lo layers gs).toList =
      gs[j]!.toList := by
  rw [maxHops_eq] at hmax
  induction hk : layers - lo generalizing lo b with
  | zero => omega
  | succ k ih =>
    rw [placeGammas_cons (by omega)]
    by_cases h : lo = j
    · subst h
      rw [slice_placeGammas_of_disjoint, toList_placeGamma]
      · refine slice_writeAt (List.Vector.toList_length _) ?_
        rw [List.Vector.toList_length, gammaOff_eq, gammaLen_eq, betaLen_eq]
        omega
      · intro i hi _
        rw [gammaOff_eq, gammaOff_eq, gammaLen_eq]
        omega
    · exact ih (placeGamma gs b lo) (by omega) (by omega)

/-- What placing MACs from slot `k` on makes of the tail depends on the tail and
on those MACs alone. -/
theorem drop_placeGammas_congr {b b' : Bytes betaLen} {k layers : ℕ}
    {gs gs' : List (Bytes gammaLen)}
    (h : b.toList.drop (k * routingSlotLen) = b'.toList.drop (k * routingSlotLen))
    (hgs : ∀ j, k ≤ j → j < layers → gs[j]! = gs'[j]!) :
    (placeGammas b k layers gs).toList.drop (k * routingSlotLen) =
      (placeGammas b' k layers gs').toList.drop (k * routingSlotLen) := by
  refine List.foldl_rel
    (r := fun x y : Bytes betaLen =>
      x.toList.drop (k * routingSlotLen) = y.toList.drop (k * routingSlotLen)) h ?_
  intro j hj x y hxy
  rw [List.mem_range'_1] at hj
  rw [toList_placeGamma, toList_placeGamma, hgs j hj.1 (by omega)]
  refine drop_writeAt_congr hxy (by simp only [List.Vector.toList_length]) ?_
  rw [gammaOff_eq, routingSlotLen_eq]
  omega

/-- Placing the MAC of a slot changes nothing behind the slot. -/
theorem drop_placeGamma (gs : List (Bytes gammaLen)) (b : Bytes betaLen) (j : ℕ) :
    (placeGamma gs b j).toList.drop ((j + 1) * routingSlotLen) =
      b.toList.drop ((j + 1) * routingSlotLen) := by
  rw [toList_placeGamma, drop_writeAt_of_le]
  rw [List.Vector.toList_length, gammaOff_eq, gammaLen_eq, routingSlotLen_eq]
  omega

/-- The route part of slot `j`: the id and the header of hop `j + 1`. -/
def RoutePlaced (ids : List (Bytes 32)) (headers : List KemHeader) (b : Bytes betaLen)
    (j : ℕ) : Prop :=
  slice (j * routingSlotLen) (32 + kemHeaderLen) b.toList =
    ids[j + 1]!.toList ++ headers[j + 1]!.toBytes

theorem toList_placeRoute (ids : List (Bytes 32)) (headers : List KemHeader) (b : Bytes betaLen)
    (i : ℕ) :
    (placeRoute ids headers b i).toList =
      writeAt (writeAt b.toList (i * routingSlotLen) ids[i + 1]!.toList)
        (i * routingSlotLen + 32) headers[i + 1]!.toBytes := by
  rw [placeRoute, Bytes.toList_put, Bytes.toList_put]

theorem routePlaced_placeRoutes (b : Bytes betaLen) {layers : ℕ} (ids : List (Bytes 32))
    (headers : List KemHeader) (hmax : layers ≤ maxHops) {j : ℕ} (hj : j < layers) :
    RoutePlaced ids headers (placeRoutes b layers ids headers) j := by
  rw [maxHops_eq] at hmax
  induction layers with
  | zero => omega
  | succ n ih =>
    rw [RoutePlaced, placeRoutes, List.range_succ, List.foldl_append, List.foldl_cons,
      List.foldl_nil, ← placeRoutes, toList_placeRoute]
    by_cases h : j = n
    · subst h
      rw [← slice_append_slice, slice_writeAt_of_disjoint (by left; omega),
        slice_writeAt (List.Vector.toList_length _), slice_writeAt (KemHeader.length_toBytes _)]
      · rw [length_writeAt, List.Vector.toList_length, routingSlotLen_eq, kemHeaderLen_eq,
          betaLen_eq]
        omega
      · rw [List.Vector.toList_length, routingSlotLen_eq, betaLen_eq]
        omega
    · rw [slice_writeAt_of_disjoint, slice_writeAt_of_disjoint]
      · exact ih (by omega) (by omega)
      · left
        rw [routingSlotLen_eq, kemHeaderLen_eq]
        omega
      · left
        rw [routingSlotLen_eq, kemHeaderLen_eq]
        omega

theorem RoutePlaced.placeGammas {ids : List (Bytes 32)} {headers : List KemHeader}
    {b : Bytes betaLen} {j : ℕ} (h : RoutePlaced ids headers b j) (lo layers : ℕ)
    (gs : List (Bytes gammaLen)) :
    RoutePlaced ids headers (placeGammas b lo layers gs) j := by
  rw [RoutePlaced, slice_placeGammas_of_disjoint, h]
  intro i _ _
  rw [gammaOff_eq, routingSlotLen_eq, kemHeaderLen_eq, gammaLen_eq]
  omega

/-! ## The second pass -/

/-- The MACs known for the slots from `m` on are the ones the hops behind those
slots will compute. -/
structure GammasFrom (layers : ℕ) (secrets : List SharedSecret) (m : ℕ)
    (st : Bytes betaLen × List (Bytes gammaLen)) : Prop where
  length_eq : st.2.length = layers
  simulated : ∀ j, m ≤ j → j < layers →
    st.2[j]! = macAfterPeels C
      (encryptSlots C (placeGammas st.1 m layers st.2) layers (secrets.take layers)) secrets (j + 1)

/-- A round of the second pass places MACs; its encryption and decryption cancel. -/
theorem embedGamma_fst (layers : ℕ) (secrets : List SharedSecret)
    (st : Bytes betaLen × List (Bytes gammaLen)) (i : ℕ) :
    (embedGamma C layers secrets st i).1 = placeGammas st.1 (i + 1) layers st.2 :=
  xorSlots_xorSlots C _ layers (secrets.take layers)

theorem embedGamma_snd (layers : ℕ) (secrets : List SharedSecret)
    (st : Bytes betaLen × List (Bytes gammaLen)) (i : ℕ) :
    (embedGamma C layers secrets st i).2 =
      st.2.set i (macAfterPeels C (encryptSlots C (placeGammas st.1 (i + 1) layers st.2) layers
        (secrets.take layers)) secrets (i + 1)) :=
  rfl

theorem getElem!_set_self {α : Type} [Inhabited α] {l : List α} {i : ℕ} (h : i < l.length)
    (a : α) : (l.set i a)[i]! = a := by
  simp [h]

theorem getElem!_set_ne {α : Type} [Inhabited α] {l : List α} {i j : ℕ} (h : i ≠ j) (a : α) :
    (l.set i a)[j]! = l[j]! := by
  simp [h]

/-- **One round of the second pass**: the MAC of slot `m` joins the ones known. -/
theorem embedGamma_gammasFrom {layers m : ℕ} {secrets : List SharedSecret}
    {st : Bytes betaLen × List (Bytes gammaLen)} (hlen : layers < secrets.length)
    (hmax : layers < maxHops) (hm : m < layers) (h : GammasFrom C layers secrets (m + 1) st) :
    GammasFrom C layers secrets m (embedGamma C layers secrets st m) := by
  refine ⟨by rw [embedGamma_snd, List.length_set, h.length_eq], ?_⟩
  rw [embedGamma_fst, embedGamma_snd]
  set b := placeGammas st.1 (m + 1) layers st.2 with hb
  set mac := macAfterPeels C (encryptSlots C b layers (secrets.take layers)) secrets (m + 1)
    with hmac
  -- the MACs behind slot `m` are in place already, and slot `m` lies before the cut
  have hplaced : placeGammas b (m + 1) layers st.2 = b :=
    placeGammas_of_placed fun j hj hjl => slice_placeGammas st.1 st.2 hj hjl hmax.le
  have hdrop : (placeGammas b m layers (st.2.set m mac)).toList.drop ((m + 1) * routingSlotLen) =
      b.toList.drop ((m + 1) * routingSlotLen) := by
    rw [placeGammas_cons hm, drop_placeGammas_congr (drop_placeGamma (st.2.set m mac) b m)
      (fun j hj _ => getElem!_set_ne (by omega) mac), hplaced]
  intro j hj hjl
  have hsame : macAfterPeels C (encryptSlots C (placeGammas b m layers (st.2.set m mac)) layers
      (secrets.take layers)) secrets (j + 1) =
      macAfterPeels C (encryptSlots C b layers (secrets.take layers)) secrets (j + 1) := by
    refine macAfterPeels_congr C (by omega) (by omega) ?_
    refine drop_xorSlots_congr C layers (secrets.take layers) ?_
    exact drop_eq_of_drop_eq hdrop (Nat.mul_le_mul_right _ (by omega))
  rw [hsame]
  by_cases hjm : m = j
  · subst hjm
    exact getElem!_set_self (by rw [h.length_eq]; exact hm) mac
  · rw [getElem!_set_ne hjm, h.simulated j (by omega) hjl]

/-- **The second pass**: every MAC is the one its hop will compute. -/
theorem gammasFrom_embedGammas {layers : ℕ} {secrets : List SharedSecret} (b : Bytes betaLen)
    (hlen : layers < secrets.length) (hmax : layers < maxHops) :
    GammasFrom C layers secrets 0 (embedGammas C b layers secrets) := by
  suffices h : ∀ k ≤ layers, ∀ st, GammasFrom C layers secrets k st →
      GammasFrom C layers secrets 0 ((List.range k).reverse.foldl (embedGamma C layers secrets) st)
      from h layers le_rfl _ ⟨List.length_replicate, fun j hj hjl => absurd hjl (by omega)⟩
  intro k
  induction k with
  | zero => exact fun _ _ h => h
  | succ k ih =>
    intro hk st hst
    rw [List.range_succ, List.reverse_append, List.reverse_singleton, List.singleton_append,
      List.foldl_cons]
    exact ih (by omega) _ (embedGamma_gammasFrom C hlen hmax (by omega) hst)

theorem RoutePlaced.embedGammas {ids : List (Bytes 32)} {headers : List KemHeader}
    {b : Bytes betaLen} {j : ℕ} (h : RoutePlaced ids headers b j) (layers : ℕ)
    (secrets : List SharedSecret) :
    RoutePlaced ids headers (embedGammas C b layers secrets).1 j := by
  refine Run.foldl_preserves
    (fun st : Bytes betaLen × List (Bytes gammaLen) => RoutePlaced ids headers st.1 j) ?_ h
  intro st i _ hst
  rw [embedGamma_fst]
  exact hst.placeGammas (i + 1) layers st.2

/-- **What slot `j` of the finished header says**: the id and header of hop
`j + 1`, and the MAC that hop will compute. -/
theorem decrypted_slot_buildBeta {layers : ℕ} (noise : Bytes betaLen) (ids : List (Bytes 32))
    (headers : List KemHeader) {secrets : List SharedSecret} (hlen : layers < secrets.length)
    (hmax : layers < maxHops) {j : ℕ} (hj : j < layers) :
    xorAt (slice (j * routingSlotLen) routingSlotLen
        (buildBeta C noise layers ids headers secrets).toList) 0
        (keystream C streamBeta secrets[j]! routingSlotLen) =
      RoutingSlot.toBytes ⟨ids[j + 1]!, headers[j + 1]!,
        macAfterPeels C (buildBeta C noise layers ids headers secrets) secrets (j + 1)⟩ := by
  obtain ⟨st, hst⟩ : ∃ st, st = embedGammas C (placeRoutes noise layers ids headers) layers secrets :=
    ⟨_, rfl⟩
  have hbeta : buildBeta C noise layers ids headers secrets =
      encryptSlots C (placeGammas st.1 0 layers st.2) layers (secrets.take layers) := by
    rw [hst]
    simp only [buildBeta, encryptSlots, decryptSlots, xorSlots_xorSlots]
  have hroute : RoutePlaced ids headers (placeGammas st.1 0 layers st.2) j := by
    rw [hst]
    exact ((routePlaced_placeRoutes noise ids headers hmax.le hj).embedGammas C layers
      secrets).placeGammas 0 layers _
  have hgamma := (hst ▸ gammasFrom_embedGammas C (placeRoutes noise layers ids headers) hlen hmax
    : GammasFrom C layers secrets 0 st).simulated j (Nat.zero_le j) hj
  have hsecret : (secrets.take layers)[j]! = secrets[j]! := by
    simp [hj]
  rw [hbeta, encryptSlots, slice_xorSlots C _ _ hj, hsecret, xorAt_xorAt, RoutingSlot.toBytes]
  have hsplit := slice_append_slice (j * routingSlotLen) (32 + kemHeaderLen) gammaLen
    (placeGammas st.1 0 layers st.2).toList
  have hread := slice_placeGammas st.1 st.2 (Nat.zero_le j) hj hmax.le
  rw [RoutePlaced] at hroute
  rw [← Nat.add_assoc, hroute, hread, hgamma, hbeta.symm] at hsplit
  rw [← List.append_assoc, ← encryptSlots, ← hbeta, hsplit]
  rfl

/-! ## The payload -/

/-- The layers of `delta` come off in any order: here the outermost secret's first. -/
theorem unwrap_wrapDelta (d : Bytes deltaLen) (s : SharedSecret) (secrets : List SharedSecret) :
    streamXorRange C (wrapDelta C d (s :: secrets)) 0 deltaLen s streamDelta =
      wrapDelta C d secrets := by
  have hinv : ∀ x : Bytes deltaLen,
      streamXorRange C (streamXorRange C x 0 deltaLen s streamDelta) 0 deltaLen s streamDelta =
        x := by
    intro x
    apply Bytes.ext_toList
    simp only [streamXorRange, Bytes.toList_xor, xorAt_xorAt]
  have hcomm : ∀ (x : Bytes deltaLen) (u v : SharedSecret),
      streamXorRange C (streamXorRange C x 0 deltaLen u streamDelta) 0 deltaLen v streamDelta =
        streamXorRange C (streamXorRange C x 0 deltaLen v streamDelta) 0 deltaLen u
          streamDelta := by
    intro x u v
    apply Bytes.ext_toList
    simp only [streamXorRange, Bytes.toList_xor]
    exact xorAt_comm ..
  have hout := Run.foldl_comm_step
    (f := fun delta sec => streamXorRange C delta 0 deltaLen sec streamDelta) hcomm secrets d s
  rw [wrapDelta, List.foldl_cons, ← hout, hinv, wrapDelta]

/-- The padded payload is the payload followed by the fill. -/
theorem toList_paddedPayload {payload fill : List UInt8}
    (h : payload.length + fill.length = deltaLen) :
    (paddedPayload payload fill).toList = payload ++ fill := by
  have hzero : (Bytes.zero deltaLen).toList.length = deltaLen := List.Vector.toList_length _
  have hput : ((Bytes.zero deltaLen).put 0 payload).toList.length = deltaLen :=
    List.Vector.toList_length _
  rw [paddedPayload, Bytes.toList_put, writeAt_append (by omega), Bytes.toList_put,
    writeAt_zero (by omega), List.take_left]

/-! ## Travelling the path -/

/-- Feed a packet to one relay after the other, each with its key and the state of
its cache when the packet reaches it: the next hops named, and the packet that
leaves the last relay. -/
def processAlong : List (RelayKemSecret C × ReplayCache) → SphinxPacket →
    Except CryptoError (List (Bytes 32) × SphinxPacket)
  | [], packet => .ok ([], packet)
  | (relaySecret, replay) :: hops, packet =>
    match (process C packet relaySecret replay).1 with
    | .error e => .error e
    | .ok .loopReturned => .error (.malformed "loop returned")
    | .ok .drop => .error (.malformed "drop")
    | .ok (.forward nextHop out) =>
      match processAlong hops out with
      | .error e => .error e
      | .ok (nextHops, last) => .ok (nextHop :: nextHops, last)

/-- A relay recovers the secret that was encapsulated for it, and its cache has not
seen the tag of that secret. -/
structure Ready (hop : RelayKemSecret C × ReplayCache) (kem : KemHeader × SharedSecret) :
    Prop where
  decapsulates : hop.1.decapsulate C kem.1 = .ok kem.2
  fresh : hop.2.ctContains (replayTag C kem.2) = false

/-- The packet hop `h` expects, for the header `b` and the payload `d` that were
built. -/
structure AtHop (headers : List KemHeader) (secrets : List SharedSecret) (b : Bytes betaLen)
    (d : Bytes deltaLen) (h : ℕ) (p : SphinxPacket) : Prop where
  alpha : p.alpha.toList = headers[h]!.toBytes
  beta : p.beta = (secrets.take h).foldl (peelBeta C) b
  gamma : p.gamma = macAfterPeels C b secrets h
  delta : p.delta = wrapDelta C d (secrets.drop h)

theorem take_succ_eq {α : Type} [Inhabited α] {l : List α} {h : ℕ} (hlt : h < l.length) :
    l.take (h + 1) = l.take h ++ [l[h]!] := by
  rw [List.take_add_one, List.getElem?_eq_getElem hlt]
  simp [hlt]

theorem drop_eq_cons {α : Type} [Inhabited α] {l : List α} {h : ℕ} (hlt : h < l.length) :
    l.drop h = l[h]! :: l.drop (h + 1) := by
  rw [List.drop_eq_getElem_cons hlt]
  simp [hlt]

section Path

variable {C} {headers : List KemHeader} {secrets : List SharedSecret} {beta : Bytes betaLen}
  {delta : Bytes deltaLen} {h : ℕ} {p : SphinxPacket}

/-- **One hop**: the packet is accepted and peeled, and one layer comes off `delta`. -/
theorem AtHop.process (hat : AtHop C headers secrets beta delta h p) (hlt : h < secrets.length)
    {hop : RelayKemSecret C × ReplayCache} (hready : Ready C hop (headers[h]!, secrets[h]!)) :
    ∃ q : SphinxPacket,
      (Aegis.process C p hop.1 hop.2).1 =
        .ok (.forward (openSlot C p.beta secrets[h]!).nextHop q) ∧
      q.alpha.toList = (openSlot C p.beta secrets[h]!).header.toBytes ∧
      q.beta = (secrets.take (h + 1)).foldl (peelBeta C) beta ∧
      q.gamma = (openSlot C p.beta secrets[h]!).gamma ∧
      q.delta = wrapDelta C delta (secrets.drop (h + 1)) := by
  have hmac : p.gamma = computeMac C secrets[h]! p.beta := by
    rw [hat.gamma, macAfterPeels, hat.beta]
  obtain ⟨q, hpeel, ha, hb, hg, hd⟩ := peel_spec C p secrets[h]!
  refine ⟨q, ?_, ha, ?_, hg, ?_⟩
  · rw [process_of_accepted C hat.alpha hready.decapsulates hmac hready.fresh, hpeel]
  · rw [hb, hat.beta, take_succ_eq hlt, List.foldl_append, List.foldl_cons, List.foldl_nil]
  · rw [hd, hat.delta, drop_eq_cons hlt, unwrap_wrapDelta]

/-- **A hop with a successor** names it, and the packet it sends on is the one the
successor expects. -/
theorem AtHop.step {ids : List (Bytes 32)} {noise : Bytes betaLen} {layers : ℕ}
    (hbuilt : beta = buildBeta C noise layers ids headers secrets)
    (hlen : layers < secrets.length) (hmax : layers < maxHops) (hh : h < layers)
    (hat : AtHop C headers secrets beta delta h p) {hop : RelayKemSecret C × ReplayCache}
    (hready : Ready C hop (headers[h]!, secrets[h]!)) :
    ∃ q, (Aegis.process C p hop.1 hop.2).1 = .ok (.forward ids[h + 1]! q) ∧
      AtHop C headers secrets beta delta (h + 1) q := by
  have hlt : h < secrets.length := by omega
  have htake : (secrets.take h).length = h := List.length_take_of_le hlt.le
  have hopen : openSlot C p.beta secrets[h]! =
      ⟨ids[h + 1]!, headers[h + 1]!, macAfterPeels C beta secrets (h + 1)⟩ := by
    refine RoutingSlot.ofBytes_of_toList ?_
    rw [streamXorRange, Bytes.toList_xor, hat.beta,
      firstSlot_foldl_peelBeta C beta (by omega), htake, Nat.sub_zero, hbuilt,
      decrypted_slot_buildBeta C noise ids headers hlen hmax hh]
  obtain ⟨q, hproc, ha, hb, hg, hd⟩ := hat.process hlt hready
  rw [hopen] at hproc ha hg
  exact ⟨q, hproc, ha, hb, hg, hd⟩

/-- **The rest of the path**, from hop `h` on. -/
theorem AtHop.processAlong {ids : List (Bytes 32)} {noise : Bytes betaLen}
    (hbuilt : beta = buildBeta C noise (secrets.length - 1) ids headers secrets)
    (hmax : secrets.length ≤ maxHops) (hids : ids.length = secrets.length)
    (hheaders : headers.length = secrets.length)
    (hat : AtHop C headers secrets beta delta h p) (hh : h < secrets.length)
    {hops : List (RelayKemSecret C × ReplayCache)}
    (hready : List.Forall₂ (Ready C) hops ((headers.drop h).zip (secrets.drop h))) :
    ∃ lastHop q, Aegis.processAlong C hops p = .ok (ids.drop (h + 1) ++ [lastHop], q) ∧
      q.delta = delta := by
  induction hk : secrets.length - h generalizing h p hops with
  | zero => omega
  | succ k ih =>
    rw [drop_eq_cons hh, drop_eq_cons (hheaders.symm ▸ hh), List.zip_cons_cons] at hready
    obtain _ | @⟨hop, _, hops, _, hhop, hrest⟩ := hready
    obtain ⟨sk, cache⟩ := hop
    by_cases hlast : h + 1 = secrets.length
    · -- the last hop: nothing is left of the path, and no layer of `delta`
      have hnil : (headers.drop (h + 1)).zip (secrets.drop (h + 1)) = [] := by
        rw [List.drop_eq_nil_of_le hlast.ge, List.zip_nil_right]
      rw [hnil, List.forall₂_nil_right_iff] at hrest
      subst hrest
      obtain ⟨q, hproc, -, -, -, hd⟩ := hat.process hh hhop
      refine ⟨(openSlot C p.beta secrets[h]!).nextHop, q, ?_, ?_⟩
      · rw [Aegis.processAlong, hproc, List.drop_eq_nil_of_le (by omega)]
        rfl
      · rw [hd, List.drop_eq_nil_of_le hlast.ge]
        rfl
    · obtain ⟨q, hproc, hnext⟩ := hat.step hbuilt (by omega) (by omega) (by omega) hhop
      obtain ⟨lastHop, out, hrun, hdelta⟩ := ih hnext (by omega) hrest (by omega)
      refine ⟨lastHop, out, ?_, hdelta⟩
      rw [Aegis.processAlong, hproc]
      simp only [hrun]
      rw [drop_eq_cons (l := ids) (h := h + 1) (by omega), List.cons_append]

end Path

theorem length_encapsulateAll {path : List (PathHop C)} {rng rng' : ρ}
    {headers : List KemHeader} {secrets : List SharedSecret}
    (h : encapsulateAll C path rng = .ok ((headers, secrets), rng')) :
    headers.length = path.length ∧ secrets.length = path.length := by
  induction path generalizing rng rng' headers secrets with
  | nil =>
    simp only [encapsulateAll, Except.ok.injEq, Prod.mk.injEq] at h
    obtain ⟨⟨rfl, rfl⟩, -⟩ := h
    exact ⟨rfl, rfl⟩
  | cons hop path ih =>
    rw [encapsulateAll] at h
    split at h
    · cases h
    · split at h
      · cases h
      · rename_i hrest
        simp only [Except.ok.injEq, Prod.mk.injEq] at h
        obtain ⟨⟨rfl, rfl⟩, -⟩ := h
        obtain ⟨h1, h2⟩ := ih hrest
        exact ⟨by simp [h1], by simp [h2]⟩

/-- The packet `build` returns is the one the first hop expects. -/
theorem atHop_build {path : List (PathHop C)} {payload : List UInt8} {rng rng₁ : ρ}
    {headers : List KemHeader} {secrets : List SharedSecret} (h2 : 2 ≤ path.length)
    (hmax : path.length ≤ maxHops) (hpay : payload.length ≤ deltaLen)
    (henc : encapsulateAll C path rng = .ok ((headers, secrets), rng₁)) :
    ∃ packet rng', build C path payload rng = .ok (packet, rng') ∧
      AtHop C headers secrets
        (buildBeta C (C.fillBytes betaLen rng₁).1 (path.length - 1) (path.map PathHop.id) headers
          secrets)
        (paddedPayload payload
          (C.fillBytes (deltaLen - payload.length) (C.fillBytes betaLen rng₁).2).1.toList)
        0 packet := by
  have hlen : ¬(path.length < 2 ∨ maxHops < path.length) := by omega
  have hfit : ¬deltaLen < payload.length := by omega
  rcases hnoise : C.fillBytes betaLen rng₁ with ⟨noise, rng₂⟩
  rcases hfill : C.fillBytes (deltaLen - payload.length) rng₂ with ⟨fill, rng₃⟩
  obtain ⟨beta, hbeta⟩ : ∃ beta, beta =
    buildBeta C noise (path.length - 1) (path.map PathHop.id) headers secrets := ⟨_, rfl⟩
  refine ⟨SphinxPacket.assemble headers[0]! beta (computeMac C secrets[0]! beta)
    (wrapDelta C (paddedPayload payload fill.toList) secrets), rng₃, ?_, ?_⟩
  · simp only [build, if_neg hlen, if_neg hfit, henc, hnoise, hfill, hbeta]
  · simp only [← hbeta]
    exact ⟨SphinxPacket.alpha_assemble .., SphinxPacket.beta_assemble ..,
      SphinxPacket.gamma_assemble .., SphinxPacket.delta_assemble ..⟩

/-- **A built packet travels its whole path.**  Every hop accepts it, every hop but
the last names its successor, and the packet that leaves the last hop carries the
payload at the front of `delta`, followed by the random fill. -/
theorem delta_processAlong_build {path : List (PathHop C)} {payload : List UInt8} {rng rng₁ : ρ}
    {headers : List KemHeader} {secrets : List SharedSecret} (h2 : 2 ≤ path.length)
    (hmax : path.length ≤ maxHops) (hpay : payload.length ≤ deltaLen)
    (henc : encapsulateAll C path rng = .ok ((headers, secrets), rng₁))
    {hops : List (RelayKemSecret C × ReplayCache)}
    (hready : List.Forall₂ (Ready C) hops (headers.zip secrets)) :
    ∃ packet rng' lastHop out,
      build C path payload rng = .ok (packet, rng') ∧
      processAlong C hops packet = .ok (path.tail.map PathHop.id ++ [lastHop], out) ∧
      out.delta.toList = payload ++
        (C.fillBytes (deltaLen - payload.length) (C.fillBytes betaLen rng₁).2).1.toList := by
  obtain ⟨hheaders, hsecrets⟩ := length_encapsulateAll C henc
  obtain ⟨packet, rng', hbuild, hat⟩ := atHop_build C h2 hmax hpay henc
  rw [← hsecrets] at hat
  obtain ⟨lastHop, out, hrun, hdelta⟩ := hat.processAlong rfl (by omega)
    (by rw [List.length_map, hsecrets]) (by omega) (by omega) hready
  refine ⟨packet, rng', lastHop, out, hbuild, ?_, ?_⟩
  · rw [hrun, Nat.zero_add, List.drop_one, List.map_tail]
  · rw [hdelta, toList_paddedPayload]
    rw [List.Vector.toList_length]
    omega

/-- Relays that hold the keys of the path and have seen nothing yet are ready. -/
theorem ready_of_keyPairs {path : List (PathHop C)} {keys : List (RelayKemSecret C)}
    (hkeys : List.Forall₂ (fun sk hop => KeyPair C hop.pk sk) keys path) {rng rng' : ρ}
    {headers : List KemHeader} {secrets : List SharedSecret}
    (henc : encapsulateAll C path rng = .ok ((headers, secrets), rng')) (capacity : ℕ) :
    List.Forall₂ (Ready C) (keys.map fun sk => (sk, .withCapacity capacity))
      (headers.zip secrets) := by
  induction hkeys generalizing rng rng' headers secrets with
  | nil =>
    simp only [encapsulateAll, Except.ok.injEq, Prod.mk.injEq] at henc
    obtain ⟨⟨rfl, rfl⟩, -⟩ := henc
    exact .nil
  | cons hkey _ ih =>
    rw [encapsulateAll] at henc
    split at henc
    · cases henc
    · rename_i hhop
      split at henc
      · cases henc
      · rename_i hrest
        simp only [Except.ok.injEq, Prod.mk.injEq] at henc
        obtain ⟨⟨rfl, rfl⟩, -⟩ := henc
        exact .cons ⟨decapsulate_of_encapsulate C hkey hhop,
          ReplayCache.ctContains_withCapacity capacity _⟩ (ih hrest)

/-- A path over two relays of the checksum suite. -/
def checksumPath : List (PathHop checksumSuite) :=
  [⟨.replicate 32 1, checksumPublic 3 5⟩, ⟨.replicate 32 2, checksumPublic 7 9⟩]

/-- The secrets of the relays on `checksumPath`. -/
def checksumKeys : List (RelayKemSecret checksumSuite) := [checksumSecret 3 5, checksumSecret 7 9]

theorem keyPair_checksumPath :
    List.Forall₂ (fun sk hop => KeyPair checksumSuite hop.pk sk) checksumKeys checksumPath :=
  .cons (keyPair_checksum 3 5) (.cons (keyPair_checksum 7 9) .nil)

theorem encapsulateAll_checksum (rng : UInt8) :
    ∃ headers secrets,
      encapsulateAll checksumSuite checksumPath rng = .ok ((headers, secrets), rng) :=
  ⟨_, _, rfl⟩

/-- The first relay of that path forwards what was built for it. -/
theorem process_build_checksum (payload : List UInt8) (hpay : payload.length ≤ deltaLen)
    (rng : UInt8) :
    ∃ packet rng' nextHop q, build checksumSuite checksumPath payload rng = .ok (packet, rng') ∧
      (process checksumSuite packet (checksumSecret 3 5) (.withCapacity 8)).1 =
        .ok (.forward nextHop q) := by
  obtain ⟨headers, secrets, henc⟩ := encapsulateAll_checksum rng
  obtain ⟨packet, rng', hbuild, hat⟩ :=
    atHop_build checksumSuite (by decide) (by decide) hpay henc
  obtain ⟨hheaders, hsecrets⟩ := length_encapsulateAll checksumSuite henc
  have hpos : 0 < secrets.length := by
    rw [hsecrets]
    decide
  have hready := ready_of_keyPairs checksumSuite keyPair_checksumPath henc 8
  rw [← List.drop_zero (l := secrets), ← List.drop_zero (l := headers),
    drop_eq_cons hpos, drop_eq_cons (hheaders ▸ hsecrets ▸ hpos), List.zip_cons_cons] at hready
  obtain _ | ⟨hhop, -⟩ := hready
  obtain ⟨q, hproc, -⟩ := hat.process hpos hhop
  exact ⟨packet, rng', _, q, hbuild, hproc⟩

/-- **The onion is correct end to end.** -/
theorem processAlong_build {path : List (PathHop C)} {payload : List UInt8} {rng rng₁ : ρ}
    {headers : List KemHeader} {secrets : List SharedSecret} (h2 : 2 ≤ path.length)
    (hmax : path.length ≤ maxHops) (hpay : payload.length ≤ deltaLen)
    (henc : encapsulateAll C path rng = .ok ((headers, secrets), rng₁))
    {hops : List (RelayKemSecret C × ReplayCache)}
    (hready : List.Forall₂ (Ready C) hops (headers.zip secrets)) :
    ∃ packet rng' lastHop out,
      build C path payload rng = .ok (packet, rng') ∧
      processAlong C hops packet = .ok (path.tail.map PathHop.id ++ [lastHop], out) ∧
      out.delta.toList.take payload.length = payload := by
  obtain ⟨packet, rng', lastHop, out, hbuild, hrun, hdelta⟩ :=
    delta_processAlong_build C h2 hmax hpay henc hready
  refine ⟨packet, rng', lastHop, out, hbuild, hrun, ?_⟩
  rw [hdelta, List.take_left]

theorem processAlong_build_checksum :
    ∃ packet rng' lastHop out,
      build checksumSuite checksumPath [104, 105, 0] 17 = .ok (packet, rng') ∧
      processAlong checksumSuite (checksumKeys.map fun sk => (sk, .withCapacity 8)) packet =
        .ok ([.replicate 32 2] ++ [lastHop], out) ∧
      out.delta.toList.take 3 = [104, 105, 0] :=
  processAlong_build checksumSuite (by decide) (by decide) (by decide) rfl
    (ready_of_keyPairs checksumSuite keyPair_checksumPath rfl 8)

end Aegis
