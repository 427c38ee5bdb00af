import Aegis.Crypto.SphinxOnion

/-!
# What an observer can match across a hop

`peel` decrypts the first routing slot, shifts the others forward as they are and
appends a pad derived from the hop secret.  Nothing re-encrypts the shifted slots.

* `slots_of_peel` — five of the six outgoing slots are incoming slots, whatever
  the secret; the sixth is the pad.
* `exists_peelPad_ne` — the pad does depend on the secret.
* `slots_of_process` — the same for every packet a relay forwards.
-/

namespace Aegis

open Buffer

variable {ρ : Type} (C : Suite ρ)

/-- Routing slot `j` of a packet. -/
def SphinxPacket.slot (p : SphinxPacket) (j : ℕ) : List UInt8 :=
  slice (j * routingSlotLen) routingSlotLen p.beta.toList

/-- The shifted slots of a peel are the slots behind the first. -/
theorem slot_of_beta_eq_peelBeta {p q : SphinxPacket} {s : SharedSecret}
    (h : q.beta = peelBeta C p.beta s) {j : ℕ} (hj : j + 1 < maxHops) :
    q.slot j = p.slot (j + 1) := by
  have hle : j * routingSlotLen + routingSlotLen ≤ (p.beta.toList.drop routingSlotLen).length := by
    rw [List.length_drop, List.Vector.toList_length, betaLen_eq, routingSlotLen_eq]
    rw [maxHops_eq] at hj
    omega
  rw [SphinxPacket.slot, SphinxPacket.slot, h, toList_peelBeta, slice_append_left hle, slice,
    List.drop_drop, slice, Nat.succ_mul, Nat.add_comm routingSlotLen]

/-- The last slot of a peel is the pad. -/
theorem last_slot_of_beta_eq_peelBeta {p q : SphinxPacket} {s : SharedSecret}
    (h : q.beta = peelBeta C p.beta s) :
    q.slot (maxHops - 1) = peelPad C s routingSlotLen := by
  have hlen : (p.beta.toList.drop routingSlotLen).length = (maxHops - 1) * routingSlotLen := by
    rw [List.length_drop, List.Vector.toList_length]
    rfl
  rw [SphinxPacket.slot, h, toList_peelBeta, slice_append_right hlen.le, hlen, Nat.sub_self,
    slice_zero_of_length (length_peelPad C s routingSlotLen)]

/-- A packet that is forwarded was peeled under the secret decapsulated from it. -/
theorem peel_of_process_forward {p q : SphinxPacket} {sk : RelayKemSecret C}
    {cache : ReplayCache} {nextHop : Bytes 32}
    (h : (process C p sk cache).1 = .ok (.forward nextHop q)) :
    ∃ header secret, extractKemHeader p = .ok header ∧ sk.decapsulate C header = .ok secret ∧
      peel C p secret = .ok (.forward nextHop q) := by
  rw [process] at h
  cases hheader : extractKemHeader p with
  | error e => simp [hheader] at h
  | ok header =>
    cases hsecret : sk.decapsulate C header with
    | error e => simp [hheader, hsecret] at h
    | ok secret =>
      simp only [hheader, hsecret] at h
      refine ⟨header, secret, rfl, hsecret, ?_⟩
      split at h
      · cases h
      · cases hcheck : cache.checkAndInsert (replayTag C secret) with
        | mk fresh replay =>
          cases fresh with
          | false => simp [hcheck] at h
          | true => simpa [hcheck] using h

/-! ## The pad -/

/-- The same suite with another digest. -/
def Suite.withDigest (H : List UInt8 → Bytes 32) : Suite ρ := { C with sha3 := H }

/-- The first byte of the pad is the first byte of the digest of its first block. -/
theorem head?_peelPad (s : SharedSecret) :
    (peelPad C s routingSlotLen).head? =
      some (C.sha3 (peelPadDomain ++ s.toList ++ leBytes 8 0)).head := by
  have hblocks : (routingSlotLen + 31) / 32 = 36 + 1 := by decide
  have hpos : routingSlotLen = 1183 + 1 := by decide
  have hcons : ∀ v : Bytes 32, v.toList = v.head :: v.tail.toList := by
    intro v
    rw [← List.Vector.toList_cons, List.Vector.cons_head_tail]
  rw [peelPad, keystream, hblocks, hpos, List.range_succ_eq_map, List.flatMap_cons, hcons,
    List.cons_append, List.take_succ_cons, List.head?_cons]

/-- **The pad depends on the secret**: any two secrets are told apart by some digest. -/
theorem exists_peelPad_ne {s s' : SharedSecret} (h : s ≠ s') :
    ∃ H : List UInt8 → Bytes 32,
      peelPad (C.withDigest H) s routingSlotLen ≠ peelPad (C.withDigest H) s' routingSlotLen := by
  obtain ⟨m, hm⟩ : ∃ m, m = peelPadDomain ++ s.toList ++ leBytes 8 0 := ⟨_, rfl⟩
  have hne : peelPadDomain ++ s'.toList ++ leBytes 8 0 ≠ m := by
    intro heq
    rw [hm] at heq
    have hs := List.append_cancel_left (List.append_cancel_right heq)
    exact h (Bytes.ext_toList hs.symm)
  refine ⟨fun x => if x = m then .replicate 32 1 else .replicate 32 0, ?_⟩
  intro heq
  have hhead := congrArg List.head? heq
  rw [head?_peelPad, head?_peelPad] at hhead
  simp only [Suite.withDigest, ← hm, if_true, if_neg hne] at hhead
  exact absurd hhead (by decide)

/-! ## Across a hop -/

/-- **Peeling, slot by slot.**  The first five outgoing slots are the last five
incoming ones whatever the secret, and the last one is the pad of the secret. -/
theorem slots_of_peel (p : SphinxPacket) (s : SharedSecret) :
    ∃ nextHop q, peel C p s = .ok (.forward nextHop q) ∧
      (∀ j, j + 1 < maxHops → q.slot j = p.slot (j + 1)) ∧
      q.slot (maxHops - 1) = peelPad C s routingSlotLen := by
  obtain ⟨q, hpeel, -, hbeta, -, -⟩ := peel_spec C p s
  exact ⟨_, q, hpeel, fun j hj => slot_of_beta_eq_peelBeta C hbeta hj,
    last_slot_of_beta_eq_peelBeta C hbeta⟩

/-- **What a relay forwards, slot by slot.**  Five of the six slots are incoming
slots, the same for every hop secret; only the last, the pad, depends on it. -/
theorem slots_of_process {p q : SphinxPacket} {sk : RelayKemSecret C} {cache : ReplayCache}
    {nextHop : Bytes 32} (h : (process C p sk cache).1 = .ok (.forward nextHop q)) :
    (∀ j, j + 1 < maxHops → q.slot j = p.slot (j + 1)) ∧
      ∃ header secret, extractKemHeader p = .ok header ∧ sk.decapsulate C header = .ok secret ∧
        q.slot (maxHops - 1) = peelPad C secret routingSlotLen ∧
        ∀ secret', secret' ≠ secret → ∃ H : List UInt8 → Bytes 32,
          peelPad (C.withDigest H) secret' routingSlotLen ≠
            peelPad (C.withDigest H) secret routingSlotLen := by
  obtain ⟨header, secret, hheader, hsecret, hpeel⟩ := peel_of_process_forward C h
  obtain ⟨nextHop', q', hpeel', hslots, hlast⟩ := slots_of_peel C p secret
  rw [hpeel] at hpeel'
  cases hpeel'
  exact ⟨hslots, header, secret, hheader, hsecret, hlast, fun _ hne => exists_peelPad_ne C hne⟩

theorem slots_of_process_checksum :
    ∃ packet rng' nextHop q header secret,
      build checksumSuite checksumPath [104, 105] 17 = .ok (packet, rng') ∧
      (process checksumSuite packet (checksumSecret 3 5) (.withCapacity 8)).1 =
        .ok (.forward nextHop q) ∧
      (∀ j, j + 1 < maxHops → q.slot j = packet.slot (j + 1)) ∧
      extractKemHeader packet = .ok header ∧
      (checksumSecret 3 5).decapsulate checksumSuite header = .ok secret ∧
      q.slot (maxHops - 1) = peelPad checksumSuite secret routingSlotLen := by
  obtain ⟨packet, rng', nextHop, q, hbuild, hproc⟩ :=
    process_build_checksum [104, 105] (by decide) 17
  obtain ⟨hslots, header, secret, hheader, hsecret, hlast, -⟩ :=
    slots_of_process checksumSuite hproc
  exact ⟨packet, rng', nextHop, q, header, secret, hbuild, hproc, hslots, hheader, hsecret, hlast⟩

/-- A packet built for two relays leaves the first one with a slot it arrived with. -/
theorem slot_reappears_checksum :
    ∃ packet rng' nextHop q,
      build checksumSuite checksumPath [104, 105] 17 = .ok (packet, rng') ∧
      (process checksumSuite packet (checksumSecret 3 5) (.withCapacity 8)).1 =
        .ok (.forward nextHop q) ∧
      q.slot 0 = packet.slot 1 := by
  obtain ⟨packet, rng', nextHop, q, hbuild, hproc⟩ :=
    process_build_checksum [104, 105] (by decide) 17
  obtain ⟨header, secret, -, -, hpeel⟩ := peel_of_process_forward checksumSuite hproc
  obtain ⟨_, _, hpeel', hslots, -⟩ := slots_of_peel checksumSuite packet secret
  rw [hpeel] at hpeel'
  cases hpeel'
  exact ⟨packet, rng', nextHop, q, hbuild, hproc, hslots 0 (by decide)⟩

end Aegis
