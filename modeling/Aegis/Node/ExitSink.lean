import Aegis.Crypto.SphinxOnion

/-!
# What the exit delivers (`exit_sink.rs`)

The last relay hands the packet it peeled to the exit sink, which takes the
payload to be everything up to the last byte of `delta` that is not zero and
writes it out as one line of hex.  `build` fills the rest of `delta` from the
generator, so nothing in `delta` says where the payload ends.

* `hexEncode_injective`, `handleRealPeel_eq_iff` — the line written determines
  the bytes extracted.
* `payloadPrefix_eq_iff` — the sink recovers a payload exactly when the fill is
  zero and the payload does not end in a zero byte.
* `delivered_iff` — the same for a packet that was built and travelled its path.
-/

namespace Aegis

open Buffer

/-- `packet_delta` of the relay crate. -/
def packetDelta (packet : SphinxPacket) : List UInt8 :=
  slice (alphaLen + betaLen + gammaLen) deltaLen packet.toList

/-- The bytes the exit sink takes for the payload. -/
def payloadPrefix (packet : SphinxPacket) : List UInt8 :=
  trimEnd (fun b => decide (b ≠ 0)) (packetDelta packet)

/-- A lower-case hexadecimal digit, as an ASCII byte. -/
def hexDigit (n : ℕ) : UInt8 := UInt8.ofNat (if n < 10 then 48 + n else 87 + n)

/-- `hex_encode`: two digits for each byte. -/
def hexEncode (bytes : List UInt8) : List UInt8 :=
  bytes.flatMap fun b => [hexDigit (b.toNat / 16), hexDigit (b.toNat % 16)]

/-- What `deliver_line` appends to its target. -/
def deliverLine (line : List UInt8) : List UInt8 := line ++ [10]

/-- What `handle_real_peel` writes to a configured target. -/
def handleRealPeel (packet : SphinxPacket) : List UInt8 :=
  deliverLine (hexEncode (payloadPrefix packet))

/-! ## The line determines the bytes -/

theorem hexDigit_injective {m n : ℕ} (hm : m < 16) (hn : n < 16) (h : hexDigit m = hexDigit n) :
    m = n := by
  have hnat := congrArg UInt8.toNat h
  simp only [hexDigit, UInt8.toNat_ofNat'] at hnat
  split_ifs at hnat <;> omega

theorem hexEncode_injective {a b : List UInt8} (h : hexEncode a = hexEncode b) : a = b := by
  induction a generalizing b with
  | nil =>
    cases b with
    | nil => rfl
    | cons y b => simp [hexEncode] at h
  | cons x a ih =>
    cases b with
    | nil => simp [hexEncode] at h
    | cons y b =>
      have hx := x.toNat_lt
      have hy := y.toNat_lt
      simp only [hexEncode, List.flatMap_cons, List.cons_append, List.nil_append,
        List.cons.injEq] at h
      obtain ⟨hhi, hlo, hrest⟩ := h
      have h1 := hexDigit_injective (by omega) (by omega) hhi
      have h2 := hexDigit_injective (by omega) (by omega) hlo
      have hxy : x = y := UInt8.toNat_inj.mp (by omega)
      rw [hxy, ih hrest]

theorem handleRealPeel_eq_iff (packet : SphinxPacket) (payload : List UInt8) :
    handleRealPeel packet = deliverLine (hexEncode payload) ↔ payloadPrefix packet = payload := by
  constructor
  · intro h
    exact hexEncode_injective (List.append_cancel_right h)
  · intro h
    rw [handleRealPeel, h]

/-! ## When the payload is recovered -/

/-- **The sink recovers a padded payload** exactly when the padding is zero and the
payload does not end in a zero byte. -/
theorem payloadPrefix_eq_iff {packet : SphinxPacket} {payload fill : List UInt8}
    (h : packet.delta.toList = payload ++ fill) :
    payloadPrefix packet = payload ↔ (∀ b ∈ fill, b = 0) ∧ payload.getLast? ≠ some 0 := by
  have hdelta : packetDelta packet = payload ++ fill := h
  rw [payloadPrefix, hdelta, trimEnd_append_eq_left_iff]
  refine and_congr ?_ ?_
  · simp
  · constructor
    · intro hlast hzero
      simpa using hlast 0 hzero
    · intro hzero b hb
      simp only [decide_eq_true_eq]
      rintro rfl
      exact hzero hb

variable {ρ : Type} (C : Suite ρ)

/-- The bytes `build` draws behind the payload, from the state of the generator
after the encapsulations. -/
def deltaFill (payload : List UInt8) (rng : ρ) : List UInt8 :=
  (C.fillBytes (deltaLen - payload.length) (C.fillBytes betaLen rng).2).1.toList

/-- **Exit delivery is exact** for precisely the payloads that do not end in a zero
byte and the draws that are all zero. -/
theorem delivered_iff {path : List (PathHop C)} {payload : List UInt8} {rng rng₁ : ρ}
    {headers : List KemHeader} {secrets : List SharedSecret} (h2 : 2 ≤ path.length)
    (hmax : path.length ≤ maxHops) (hpay : payload.length ≤ deltaLen)
    (henc : encapsulateAll C path rng = .ok ((headers, secrets), rng₁))
    {hops : List (RelayKemSecret C × ReplayCache)}
    (hready : List.Forall₂ (Ready C) hops (headers.zip secrets)) :
    ∃ packet rng' lastHop out,
      build C path payload rng = .ok (packet, rng') ∧
      processAlong C hops packet = .ok (path.tail.map PathHop.id ++ [lastHop], out) ∧
      ((payloadPrefix out = payload ∧ handleRealPeel out = deliverLine (hexEncode payload)) ↔
        (∀ b ∈ deltaFill C payload rng₁, b = 0) ∧ payload.getLast? ≠ some 0) := by
  obtain ⟨packet, rng', lastHop, out, hbuild, hrun, hdelta⟩ :=
    delta_processAlong_build C h2 hmax hpay henc hready
  refine ⟨packet, rng', lastHop, out, hbuild, hrun, ?_⟩
  rw [handleRealPeel_eq_iff, and_self]
  exact payloadPrefix_eq_iff hdelta

/-- A generator that draws zeros, and a payload that does not end in one. -/
theorem delivered_checksum_zero :
    ∃ packet rng' lastHop out,
      build checksumSuite checksumPath [104, 105] 0 = .ok (packet, rng') ∧
      processAlong checksumSuite (checksumKeys.map fun sk => (sk, .withCapacity 8)) packet =
        .ok ([.replicate 32 2] ++ [lastHop], out) ∧
      payloadPrefix out = [104, 105] := by
  obtain ⟨headers, secrets, henc⟩ := encapsulateAll_checksum 0
  have hpay : ([104, 105] : List UInt8).length ≤ deltaLen := by decide
  obtain ⟨packet, rng', lastHop, out, hbuild, hrun, hiff⟩ :=
    delivered_iff checksumSuite (by decide) (by decide) hpay henc
      (ready_of_keyPairs checksumSuite keyPair_checksumPath henc 8)
  refine ⟨packet, rng', lastHop, out, hbuild, hrun, (hiff.mpr ⟨?_, by decide⟩).1⟩
  intro b hb
  exact List.eq_of_mem_replicate hb

/-- Any other draw is delivered along with the payload. -/
theorem not_delivered_checksum :
    ∃ packet rng' lastHop out,
      build checksumSuite checksumPath [104, 105] 17 = .ok (packet, rng') ∧
      processAlong checksumSuite (checksumKeys.map fun sk => (sk, .withCapacity 8)) packet =
        .ok ([.replicate 32 2] ++ [lastHop], out) ∧
      ¬(payloadPrefix out = [104, 105] ∧
        handleRealPeel out = deliverLine (hexEncode [104, 105])) := by
  obtain ⟨headers, secrets, henc⟩ := encapsulateAll_checksum 17
  have hpay : ([104, 105] : List UInt8).length ≤ deltaLen := by decide
  obtain ⟨packet, rng', lastHop, out, hbuild, hrun, hdelta⟩ :=
    delta_processAlong_build checksumSuite (by decide) (by decide) hpay henc
      (ready_of_keyPairs checksumSuite keyPair_checksumPath henc 8)
  refine ⟨packet, rng', lastHop, out, hbuild, hrun, ?_⟩
  rintro ⟨hpad, -⟩
  have hzero := ((payloadPrefix_eq_iff hdelta).mp hpad).1 17
  exact absurd (hzero (List.mem_replicate.mpr ⟨by decide, rfl⟩)) (by decide)

end Aegis
