import Aegis.Lib.HashSet
import Aegis.Topology.Ceremony
import Aegis.Trust.LedgerFile

/-!
# Custodians can sign (`ceremony.rs`, `shamir.rs`, `roster.rs`)

Behind a ceremony with Shamir shares nobody needs to keep a seed: enough custodians of an authority
bring their files together and get its seed back, and enough authorities sign an admission.

* `Shamir.decodeShareHex_line` — the line that was written for a share is read back.
* `verifyThreshold_admissionBy` — **an admission verifies exactly when enough authorities sign it**.
* `signs_of_runCeremony` — both together, from the files of a ceremony to an admission.
-/

namespace Aegis

open Buffer Utf8

/-! ## Shares are read back -/

namespace Shamir

theorem toDigit16_hexChar (n : Fin 16) : toDigit16 (hexChar n) = some n.val := by
  decide +revert

/-- A byte is the value of its digits. -/
theorem pairValue_hexByte (b : UInt8) :
    pairValue (hexChar (b.toNat / 16)) (hexChar (b.toNat % 16)) = b := by
  have hlt := b.toNat_lt
  have hhi := toDigit16_hexChar ⟨b.toNat / 16, by omega⟩
  have hlo := toDigit16_hexChar ⟨b.toNat % 16, by omega⟩
  simp only at hhi hlo
  rw [pairValue, hhi, hlo, Option.getD_some, Option.getD_some, Nat.div_add_mod']
  exact UInt8.ofNat_toNat

theorem pairValues_flatMap_hexByte (bytes : List UInt8) :
    pairValues (bytes.flatMap hexByte) = bytes := by
  induction bytes with
  | nil => rfl
  | cons b bytes ih =>
    rw [List.flatMap_cons, hexByte, List.cons_append, List.cons_append, List.nil_append, pairValues,
      pairValue_hexByte, ih]

theorem isHexDigit_of_mem_hexByte {bytes : List UInt8} {c : Char}
    (h : c ∈ bytes.flatMap hexByte) : isHexDigit c = true := by
  obtain ⟨n, rfl⟩ := StoredLedger.mem_hexEncodeBytes h
  rw [isHexDigit, toDigit16_hexChar]
  rfl

/-- The text of a share, byte by byte. -/
theorem encodeShareHex_eq (share : SeedShare) :
    encodeShareHex share = (share.x :: share.y.toList).flatMap hexByte := rfl

theorem length_encodeShareHex (share : SeedShare) : (encodeShareHex share).length = 66 := by
  simp [encodeShareHex, hexByte]

/-- A line end is trimmed off. -/
theorem trimLabel_line {text : List Char} (h : ∀ c ∈ text, isWhiteSpace c = false)
    (hne : text ≠ []) : trimLabel (Ceremony.line text) = text := by
  obtain ⟨c, rest, rfl⟩ := List.exists_cons_of_ne_nil hne
  have hkeep := NullifierRegistry.trimLabel_of_forall h
  have hnewline : isWhiteSpace '\n' = true := by decide
  have hc := h c List.mem_cons_self
  simp only [trimLabel, Ceremony.line, List.cons_append, List.dropWhile_cons, hc, hnewline,
    List.reverse_append, List.reverse_cons, List.reverse_nil, List.nil_append, if_true,
    Bool.false_eq_true, if_false] at hkeep ⊢
  exact hkeep

/-- **The line that was written for a share is read back.** -/
theorem decodeShareHex_line {share : SeedShare} (hx : share.x ≠ 0) :
    decodeShareHex (Ceremony.line (encodeShareHex share)) = some (.ok share) := by
  have hdigits : ∀ c ∈ encodeShareHex share, isHexDigit c = true :=
    fun c hc => isHexDigit_of_mem_hexByte (encodeShareHex_eq share ▸ hc)
  have htrim : trimLabel (Ceremony.line (encodeShareHex share)) = encodeShareHex share := by
    refine trimLabel_line (fun c hc => ?_) (List.ne_nil_of_length_eq_add_one
      (length_encodeShareHex share))
    have hmem : c ∈ StoredLedger.hexEncodeBytes (share.x :: share.y.toList) := hc
    obtain ⟨n, rfl⟩ := StoredLedger.mem_hexEncodeBytes hmem
    exact (NullifierRegistry.hexChar_spec n).1
  have htakes := takesPairs_of_digits hdigits (k := 33) (length_encodeShareHex share)
  obtain ⟨hlen, -, -⟩ := takesPairs_spec htakes
  rw [encodeShareHex_eq, pairValues_flatMap_hexByte, List.length_cons, List.Vector.toList_length,
    ← encodeShareHex_eq] at hlen
  rw [← htrim] at hlen htakes
  obtain ⟨a, b, rest, share', htext, -, hx', hy', hdecode⟩ := decodeShareHex_of_taken hlen htakes
  rw [htrim] at htext
  have hvalues := pairValues_flatMap_hexByte (share.x :: share.y.toList)
  rw [← encodeShareHex_eq, htext, pairValues, ← hx', ← hy'] at hvalues
  obtain ⟨hxeq, hyeq⟩ := List.cons.inj hvalues
  have hshare : share' = share := by
    cases share
    cases share'
    exact congr (congrArg SeedShare.mk hxeq) (Subtype.ext hyeq)
  rw [hdecode, hshare, if_neg hx]

end Shamir

/-! ## Signing with enough keys -/

namespace ThresholdConsortium

variable {SK VK : Type} {E : Ed25519 SK VK}

theorem index_eq_insertAll (authorities : List VK) :
    index E authorities = HashMap.insertAll (authorities.map fun vk => (E.toBytes vk, vk)) := by
  simp [index, HashMap.insertAll, List.foldl_map]

/-- **A consortium has no two authorities with one key**, and finds each under its key. -/
theorem nodup_of_new {threshold : ℕ} {authorities : List VK} {c : ThresholdConsortium E}
    (h : new E threshold authorities = .ok c) :
    (authorities.map E.toBytes).Nodup ∧
      ∀ vk ∈ authorities, c.authorityForPubkey (E.toBytes vk) = some vk := by
  unfold new at h
  split_ifs at h with hempty hthreshold hlength
  obtain rfl := Except.ok.inj h
  rw [not_not, index_eq_insertAll] at hlength
  have hnodup := HashMap.nodup_of_length_insertAll (hlength.trans (List.length_map _).symm)
  refine ⟨by simpa [Function.comp_def] using hnodup, fun vk hvk => ?_⟩
  show (index E authorities).lookup (E.toBytes vk) = some vk
  rw [index_eq_insertAll]
  exact (HashMap.lookup_insertAll hnodup).mpr (List.mem_map.mpr ⟨vk, hvk, rfl⟩)

end ThresholdConsortium

namespace Ceremony

open ThresholdConsortium ThresholdSignedRelayRecord

variable {SK VK : Type} {E : Ed25519 SK VK}

/-- What is signed verifies. -/
def SignsVerify (E : Ed25519 SK VK) : Prop :=
  ∀ sk m, E.verify (E.verifyingKey sk) m (E.sign sk m) = true

/-- The bytes of the public half. -/
def publicBytes (E : Ed25519 SK VK) (key : SK) : Bytes 32 := E.toBytes (E.verifyingKey key)

/-- Signatures of authorities all count, each key once. -/
theorem foldlM_countSignature (hsign : SignsVerify E) {c : ThresholdConsortium E}
    {record : RelayRecord} {keys : List SK}
    (hkeys : ∀ key ∈ keys, c.authorityForPubkey (publicBytes E key) = some (E.verifyingKey key))
    (distinctValid : Finset (Bytes 32)) :
    (keys.map fun key => signAuthority E key record).foldlM (countSignature c record)
      distinctValid = .ok (distinctValid ∪ (keys.map (publicBytes E)).toFinset) := by
  induction keys generalizing distinctValid with
  | nil => simp [pure, Except.pure]
  | cons key keys ih =>
    have hverify : (signAuthority E key record).verify E record (E.verifyingKey key) = .ok () := by
      have hverifies : (signAuthority E key record).Verifies E record (E.verifyingKey key) :=
        ⟨List.Vector.toList_length _, hsign key _⟩
      unfold AuthorityAdmissionSignature.verify
      rw [if_neg (fun h => h rfl), if_pos hverifies]
    have hstep : countSignature c record distinctValid (signAuthority E key record) =
        .ok (insert (publicBytes E key) distinctValid) := by
      unfold countSignature
      have hpk : (signAuthority E key record).authorityPubkey = publicBytes E key := rfl
      rw [hpk]
      split
      · rename_i hmem
        rw [Finset.insert_eq_of_mem hmem]
      · simp only [hkeys key List.mem_cons_self, hverify]
    rw [List.map_cons, List.foldlM_cons, hstep]
    refine (ih (fun k hk => hkeys k (List.mem_cons_of_mem key hk)) _).trans ?_
    rw [List.map_cons, List.toFinset_cons, Finset.insert_union, Finset.union_insert]

/-- **An admission verifies exactly when enough authorities sign it.** -/
theorem verifyThreshold_admissionBy (hsign : SignsVerify E) {threshold : ℕ} {authorities : List VK}
    {c : ThresholdConsortium E} (hc : new E threshold authorities = .ok c) {keys : List SK}
    (hmem : ∀ key ∈ keys, E.verifyingKey key ∈ authorities)
    (hnodup : (keys.map (publicBytes E)).Nodup) (record : RelayRecord) :
    (admissionBy E keys record).verifyThreshold c = .ok () ↔ threshold ≤ keys.length := by
  obtain ⟨rfl, rfl⟩ := of_new hc
  have hfind := (nodup_of_new hc).2
  unfold verifyThreshold
  rw [admissionBy, foldlM_countSignature hsign fun key hkey => hfind _ (hmem key hkey)]
  dsimp only
  rw [Finset.empty_union, List.toFinset_card_of_nodup hnodup, List.length_map]
  split
  · rename_i hless
    exact iff_of_false nofun (by omega)
  · exact iff_of_true rfl (by omega)

/-! ## From the files to an admission -/

variable {env : CeremonyEnv E}

/-- The shares of a split have different indices, none of them zero. -/
theorem shares_of_splitSeed {seed : Bytes 32} {st sn : ℕ} {rng rest : List UInt8}
    {shares : List SeedShare} (h : Shamir.splitSeed seed st sn rng = some (.ok shares, rest)) :
    shares.Nodup ∧ ∀ share ∈ shares, share.x ≠ 0 := by
  obtain ⟨⟨hpos, hle, hn⟩, -⟩ := of_splitSeed h
  rw [Shamir.splitSeed_eq hpos hle hn] at h
  obtain ⟨⟨coeffs, rest'⟩, -, heq⟩ := Option.map_eq_some_iff.mp h
  obtain rfl := Except.ok.inj (Prod.mk.inj heq).1
  refine ⟨?_, fun share hshare => ((Shamir.mem_sharesOf hn).mp hshare).1.1⟩
  refine List.Nodup.of_map SeedShare.x ?_
  rw [Shamir.sharesOf, List.map_map]
  refine (List.nodup_range' (h := by decide)).map_on fun x hx y hy hxy => ?_
  rw [List.mem_range'_1] at hx hy
  have htoNat := congrArg UInt8.toNat hxy
  simp only [Function.comp_apply] at htoNat
  rwa [UInt8.toNat_ofNat_of_lt' (by show x < 256; omega),
    UInt8.toNat_ofNat_of_lt' (by show y < 256; omega)] at htoNat

/-- Files that hold shares are read. -/
theorem readShares_eq {disk : Disk} {paths : List FilePath} {shares : List SeedShare}
    (h : List.Forall₂ (fun path share => disk path = .ok (line (Shamir.encodeShareHex share)) ∧
      share.x ≠ 0) paths shares) : readShares disk paths = some (.ok shares) := by
  induction h with
  | nil => rfl
  | cons hfile hrest ih =>
    obtain ⟨htext, hx⟩ := hfile
    rw [readShares, readShare, htext]
    simp only [Shamir.decodeShareHex_line hx, ih]
    rfl

/-- The paths of chosen shares, as the ceremony lists them. -/
def chosenPaths (out : CeremonyOutput E) (i : ℕ) (js : List ℕ) : List FilePath :=
  js.map fun j => (out.shamirSharePaths.getD i []).getD j []

/-- **Enough custodians get the seed back**, whoever they are. -/
theorem reconstructSeedFromFiles_eq {disk : Disk} {outDir : FilePath} {sn st i : ℕ}
    {seed : Bytes 32} (h : SharesOnDisk outDir (some (sn, st)) disk i seed) {js : List ℕ}
    (hnodup : js.Nodup) (hlen : st ≤ js.length) (hjs : ∀ j ∈ js, j < sn) :
    reconstructSeedFromFiles disk
      (js.map fun j => (CeremonyFile.share i j).path outDir) = some (.ok seed) := by
  obtain ⟨shares, rng, rest, hsplit, hfiles⟩ := h sn st rfl
  obtain ⟨⟨hpos, hle, hn⟩, hcount⟩ := of_splitSeed hsplit
  obtain ⟨hdistinct, hx⟩ := shares_of_splitSeed hsplit
  -- the shares in the chosen files
  have hget : ∀ j ∈ js, shares[j]? = some (shares.getD j Shamir.zeroShare) := by
    intro j hj
    have hlt := hjs j hj
    rw [List.getD_eq_getElem _ _ (by omega), List.getElem?_eq_getElem]
  have hread : readShares disk (js.map fun j => (CeremonyFile.share i j).path outDir) =
      some (.ok (js.map fun j => shares.getD j Shamir.zeroShare)) := by
    refine readShares_eq (List.forall₂_map_left_iff.mpr (List.forall₂_map_right_iff.mpr ?_))
    refine List.forall₂_same.mpr fun j hj => ⟨hfiles j _ (hget j hj), hx _ ?_⟩
    exact List.mem_of_getElem? (hget j hj)
  have hchosen : (js.map fun j => shares.getD j Shamir.zeroShare).Nodup := by
    refine hnodup.map_on fun j hj k hk heq => ?_
    have hj' := hget j hj
    have hk' := hget k hk
    rw [← heq] at hk'
    have hlt := hjs j hj
    exact (List.getElem?_inj (by omega) hdistinct).mp (hj'.trans hk'.symm)
  obtain ⟨shares', hok, hreconstruct⟩ := Shamir.reconstruct_of_split hpos hle hn seed rng hsplit
  obtain rfl := Except.ok.inj hok
  have hseed := hreconstruct _ hchosen (fun share hshare => by
    obtain ⟨j, hj, rfl⟩ := List.mem_map.mp hshare
    exact List.mem_of_getElem? (hget j hj)) (by rwa [List.length_map])
  have hne : js ≠ [] := by
    rintro rfl
    rw [List.length_nil] at hlen
    omega
  unfold reconstructSeedFromFiles
  rw [if_neg (by simpa using hne), hread, Option.map_some]
  dsimp only
  rw [hseed]
  rfl

/-- **Custodians can sign.**  After a ceremony with shares, whatever was on the disk before: the
custodians of any authority who bring at least the Shamir threshold of different files together get
back a seed whose public key is the one the ceremony lists; and the authorities that come back so
sign an admission that the consortium accepts exactly if they are as many as its threshold. -/
theorem signs_of_runCeremony (hsign : SignsVerify E) {cfg : CeremonyConfig} {disk disk' : Disk}
    {rng : List UInt8} {out : CeremonyOutput E}
    (hrun : runCeremony env cfg disk rng = .ok (out, disk')) {sn st : ℕ}
    (hsn : cfg.shamirN = some sn) (hst : cfg.shamirThreshold = some st)
    (chosen : List (ℕ × List ℕ)) (hdistinct : (chosen.map Prod.fst).Nodup)
    (hchosen : ∀ c ∈ chosen, c.1 < cfg.n ∧ c.2.Nodup ∧ st ≤ c.2.length ∧ ∀ j ∈ c.2, j < sn) :
    ∃ seeds : List (Bytes 32),
      List.Forall₂ (fun c seed =>
        reconstructSeedFromFiles disk' (chosenPaths out c.1 c.2) = some (.ok seed) ∧
          out.authorityPubkeysHex[c.1]? = some (pubkeyHex env seed)) chosen seeds ∧
      ∀ record, (admissionBy E (seeds.map env.fromSeed) record).verifyThreshold out.consortium = .ok () ↔
        cfg.threshold ≤ chosen.length := by
  obtain ⟨shamir, seeds, hcheck, hlen, hnew, hhex, hpaths, hholds⟩ := of_runCeremony hrun
  obtain ⟨-, -, hsn', hst', -⟩ := of_checkConfig hcheck
  obtain rfl : shamir = some (sn, st) := by
    rw [hsn] at hsn'
    rw [hst] at hst'
    cases shamir with
    | none => cases hsn'
    | some p => rw [← Prod.mk.eta (p := p), ← Option.some.inj hsn', ← Option.some.inj hst']
  let seedOf := fun c : ℕ × List ℕ => seeds.getD c.1 (Bytes.zero 32)
  have hget : ∀ c ∈ chosen, seeds[c.1]? = some (seedOf c) := by
    intro c hc
    have hlt := (hchosen c hc).1
    rw [List.getElem?_eq_getElem (by omega)]
    exact congrArg some (List.getD_eq_getElem _ _ (by omega)).symm
  have hmem : ∀ c ∈ chosen, seedOf c ∈ seeds := fun c hc => List.mem_of_getElem? (hget c hc)
  obtain ⟨hnodup, -⟩ := nodup_of_new hnew
  rw [List.map_map, List.map_map] at hnodup
  refine ⟨chosen.map seedOf, List.forall₂_map_right_iff.mpr (List.forall₂_same.mpr fun c hc => ?_),
    fun record => ?_⟩
  · obtain ⟨hlt, hjs, hcount, hbelow⟩ := hchosen c hc
    have hfiles : chosenPaths out c.1 c.2 =
        c.2.map fun j => (CeremonyFile.share c.1 j).path env.outDir := by
      refine List.map_congr_left fun j hj => ?_
      simp [hpaths, sharePaths, hlt, hbelow j hj]
    refine ⟨?_, by rw [hhex, List.getElem?_map, hget c hc]; rfl⟩
    rw [hfiles]
    exact reconstructSeedFromFiles_eq (hholds c.1 _ (hget c hc)).shareFiles hjs hcount hbelow
  · have hkeys : ((chosen.map seedOf).map env.fromSeed).length = chosen.length := by simp
    rw [← hkeys]
    refine verifyThreshold_admissionBy hsign hnew (fun key hkey => ?_) ?_ record
    · obtain ⟨seed, hseed, rfl⟩ := List.mem_map.mp hkey
      obtain ⟨c, hc, rfl⟩ := List.mem_map.mp hseed
      exact List.mem_map.mpr ⟨_, List.mem_map.mpr ⟨_, hmem c hc, rfl⟩, rfl⟩
    · -- authorities with different indices have different keys
      rw [List.map_map, List.map_map]
      refine (List.Nodup.of_map Prod.fst hdistinct).map_on fun c hc d hd heq => ?_
      refine List.inj_on_of_nodup_map hdistinct hc hd
        ((List.getElem?_inj ?_ hnodup).mp ?_)
      · have hlt := (hchosen c hc).1
        rw [List.length_map]
        omega
      · rw [List.getElem?_map, List.getElem?_map, hget c hc, hget d hd]
        exact congrArg some heq

/-! ### Two authorities with two-of-three shares -/

/-- Keys are the first bytes of their seeds, and every file can be written. -/
def checksumEnv : CeremonyEnv HealthQuorumLog.checksumEd25519 where
  fromSeed seed := seed.head
  generateKem rng := some (Bytes.zero 32, rng)
  sha3 m := .replicate 32 (m.foldl (· + ·) 0)
  admissionJson _ := .ok "{}".toList
  manifestJson _ := .ok "{}".toList
  outDir := ["ceremony-out".toList]
  access _ := .ok ()

/-- Two authorities, and two of three shares for each of their seeds. -/
def checksumCeremony : CeremonyConfig := ⟨2, 2, "US", false, some 3, some 2⟩

theorem exists_run_checksum : ∃ out disk', runCeremony checksumEnv checksumCeremony
    (fun _ => .error "No such file or directory (os error 2)")
    (List.replicate 64 1 ++ List.replicate 64 2) = .ok (out, disk') := by
  have hok : (runCeremony checksumEnv checksumCeremony
      (fun _ => .error "No such file or directory (os error 2)")
      (List.replicate 64 1 ++ List.replicate 64 2)).isOk = true := by decide +kernel
  cases hrun : runCeremony checksumEnv checksumCeremony
      (fun _ => .error "No such file or directory (os error 2)")
      (List.replicate 64 1 ++ List.replicate 64 2) with
  | error e =>
    rw [hrun] at hok
    cases hok
  | ok r => exact ⟨r.1, r.2, rfl⟩

/-- The last two custodians of the first authority and the outer two of the second. -/
theorem signs_of_runCeremony_checksum :
    ∃ rng disk disk' out seed₀ seed₁,
      runCeremony checksumEnv checksumCeremony disk rng = .ok (out, disk') ∧
      reconstructSeedFromFiles disk' (chosenPaths out 0 [2, 1]) = some (.ok seed₀) ∧
      reconstructSeedFromFiles disk' (chosenPaths out 1 [0, 2]) = some (.ok seed₁) ∧
      ∀ record, (admissionBy HealthQuorumLog.checksumEd25519 ([seed₀, seed₁].map checksumEnv.fromSeed)
        record).verifyThreshold out.consortium = .ok () := by
  obtain ⟨out, disk', hrun⟩ := exists_run_checksum
  obtain ⟨seeds, hseeds, hverify⟩ := signs_of_runCeremony
    (fun sk m => decide_eq_true rfl) hrun rfl rfl [(0, [2, 1]), (1, [0, 2])] (by decide) (by decide)
  obtain ⟨seed₀, seeds₁, hseed₀, hseeds₁, rfl⟩ := List.forall₂_cons_left_iff.mp hseeds
  obtain ⟨seed₁, seeds₂, hseed₁, hseeds₂, rfl⟩ := List.forall₂_cons_left_iff.mp hseeds₁
  obtain rfl := List.forall₂_nil_left_iff.mp hseeds₂
  exact ⟨_, _, disk', out, seed₀, seed₁, hrun, hseed₀.1, hseed₁.1, fun record =>
    (hverify record).mpr (by decide)⟩

end Ceremony

end Aegis
