import Aegis.Lib.Placement
import Aegis.Relay.MixnetOnion

/-!
# Where the packets of the network are

A list has one item for each client that has sent: the place of its packet, and how many hops have
opened a layer.  Each step of the network moves at most one item, and there is less left to do after
it.

* `LinkTracks`, `RelayTracks` — what the list says about one link and one mix loop.
* `Tracks.step`, `Tracks.run` — **every step keeps the list and the network together**, and so does
  every run.
-/

namespace Aegis

open Buffer Placement

variable {ρ : Type} {C : Suite ρ}

/-! ## One packet in the mix loop -/

theorem trySend_roomFor (s : RelayLoop ρ) (item : ForwardedPacket) (room : Bool) :
    s.trySendDropNewest item (roomFor room) =
      if room then { s with outbound := s.outbound ++ [item] }
      else { s with stats := { s.stats with queueDropped := s.stats.queueDropped + 1 } } := by
  cases room <;> rfl

/-- What a packet that is forwarded does to the loop. -/
structure Forwards (s s' : RelayLoop ρ) (nextHop : RelayId) (packet : SphinxPacket)
    (replay : ReplayCache) (room : Bool) : Prop where
  running : s'.running = true
  replay : s'.replay = replay
  sent : room = true → ∃ delay, s'.outbound = s.outbound ++ [⟨nextHop, packet, delay⟩] ∧
    s'.stats.queueDropped = s.stats.queueDropped
  dropped : room = false → s'.outbound = s.outbound ∧
    s'.stats.queueDropped = s.stats.queueDropped + 1

/-- **A packet for another hop** goes on the outbound queue, or is dropped there. -/
theorem RelayLoop.forwards_of_process {node : RelayNode C} {s : RelayLoop ρ} {p q : SphinxPacket}
    {nextHop : RelayId} (hrunning : s.running = true)
    (hproc : (process C p node.secret s.replay).1 = .ok (.forward nextHop q))
    (hsink : isCoverSinkHop nextHop = false) (room : Bool) :
    Forwards s (s.step node (.packet p (roomFor room))) nextHop q
      (process C p node.secret s.replay).2 room := by
  rw [step_of_running hrunning, hproc, onProcessed_of_real hsink, trySend_roomFor]
  cases room with
  | true => exact ⟨hrunning, rfl, fun _ => ⟨_, rfl, rfl⟩, nofun⟩
  | false => exact ⟨hrunning, rfl, nofun, fun _ => ⟨rfl, rfl⟩⟩

/-- A command leaves the cache, the outbound queue and its drops alone. -/
theorem RelayLoop.step_of_isCommand (node : RelayNode C) (s : RelayLoop ρ) {e : RelayEvent}
    (he : isCommand e = true) :
    (s.step node e).running = s.running ∧ (s.step node e).replay = s.replay ∧
      (s.step node e).outbound = s.outbound ∧
      (s.step node e).stats.queueDropped = s.stats.queueDropped := by
  unfold step
  split
  · exact ⟨rfl, rfl, rfl, rfl⟩
  · cases e with
    | begin dial requirement => exact ⟨rfl, rfl, rfl, rfl⟩
    | endRound taken =>
      dsimp only
      unfold endRound
      rcases BulkRoundTracker.closeAndEmit C node.mlkemGenerate node.coverConfig s.round s.rng with
        ⟨⟨_ | result, round⟩, rng⟩ <;> exact ⟨rfl, rfl, rfl, rfl⟩
    | packet packet send => cases he
    | closed => cases he

/-! ## Where packets are -/

/-- The places of the network, and those where a packet ends. -/
inductive Place (ι κ : Type) where
  /-- On a link, up to its last fragment. -/
  | wire (sender : ι ⊕ κ) (relay : ι)
  /-- In the queue of a connection. -/
  | queue (sender : ι ⊕ κ) (relay : ι)
  /-- On the outbound queue. -/
  | outbound (relay : ι)
  | exit (relay : ι)
  /-- Dropped by the queue of a connection. -/
  | shed (sender : ι ⊕ κ) (relay : ι)
  /-- Dropped by the outbound queue. -/
  | unmixed (relay : ι)
  /-- Dropped by the queue of the next hop. -/
  | undispatched (relay : ι)
  deriving DecidableEq

/-- A client's packet, and how many hops have opened a layer. -/
abbrev Item (κ : Type) := κ × ℕ

namespace Mixnet

variable {ι κ : Type} (net : Mixnet C ι κ)

/-- A packet on its way to relay `i`. -/
def Inbound (i : ι) (t : Item κ) (p : SphinxPacket) : Prop :=
  (net.path t.1)[t.2]? = some i ∧ ∃ o, net.Carried t.1 t.2 o p

/-- A packet that relay `i` has opened. -/
def Outgoing (i : ι) (t : Item κ) (fwd : ForwardedPacket) : Prop :=
  ∃ n o, t.2 = n + 1 ∧ (net.path t.1)[n]? = some i ∧ net.Carried t.1 t.2 o fwd.packet ∧
    fwd.nextHop = net.named t.1 t.2 o

/-- A packet that has come to its exit. -/
def AtExit (i : ι) (t : Item κ) (p : SphinxPacket) : Prop :=
  (net.path t.1).getLast? = some i ∧ net.payload t.1 <+: packetDelta p

/-- Relay `i` has opened layer `n` of an item in the list, and this is its tag. -/
def Remembered (l : List (Place ι κ × Item κ)) (i : ι) (tag : ReplayTag) : Prop :=
  ∃ x ∈ l, ∃ n < x.2.2, (net.path x.2.1)[n]? = some i ∧
    ∃ o, net.onion x.2.1 = some o ∧ tag = replayTag C o.secrets[n]!

/-- The state of a link, and the items on it, in its queue and among those it shed. -/
structure LinkTracks (A : Aead) (src : ι ⊕ κ) (dst : ι) (l : LinkState)
    (wire queue shed : List (Item κ)) : Prop where
  ended : l.conn.ended = none
  stream : ∃ current packets, OnWire A (net.inbound src dst).sessionKey current l.unread packets ∧
    Reassembling l.conn.reassembler current ∧ List.Forall₂ (net.Inbound dst) wire packets
  taken_le : l.taken ≤ l.conn.enqueued.length
  queued : List.Forall₂ (net.Inbound dst) queue (l.conn.enqueued.drop l.taken)
  shed : shed.length = l.conn.queueDropped

/-- The state of a mix loop, and the items on its outbound queue and among those it dropped. -/
structure RelayTracks (i : ι) (r : RelayLoop ρ) (dispatched : ℕ)
    (outbound unmixed : List (Item κ)) : Prop where
  running : r.running = true
  dispatched_le : dispatched ≤ r.outbound.length
  outbound : List.Forall₂ (net.Outgoing i) outbound (r.outbound.drop dispatched)
  unmixed : unmixed.length = r.stats.queueDropped

/-! ## Links -/

/-- The first of the packets that are left belongs to the first of their items. -/
theorem exists_head_of_getElem? {α β : Type} {R : α → β → Prop} {ts : List α} {l : List β} {n : ℕ}
    {b : β} (h : List.Forall₂ R ts (l.drop n)) (hb : l[n]? = some b) :
    ∃ t ts', ts = t :: ts' ∧ R t b ∧ List.Forall₂ R ts' (l.drop (n + 1)) := by
  obtain ⟨hlt, rfl⟩ := List.getElem?_eq_some_iff.mp hb
  rw [List.drop_eq_getElem_cons hlt] at h
  obtain ⟨t, ts', ht, hrest, rfl⟩ := List.forall₂_cons_right_iff.mp h
  exact ⟨t, ts', rfl, ht, hrest⟩

/-- A hop without a successor is the last one. -/
theorem getLast?_of_getElem? {α : Type} {l : List α} {n : ℕ} {a : α} (h : l[n]? = some a)
    (hnext : l[n + 1]? = none) : l.getLast? = some a ∧ n + 1 = l.length := by
  obtain ⟨hlt, -⟩ := List.getElem?_eq_some_iff.mp h
  rw [List.getElem?_eq_none_iff] at hnext
  have hlast : n = l.length - 1 := by omega
  rw [List.getLast?_eq_getElem?, ← hlast]
  exact ⟨h, by omega⟩

section Link

variable {net} {A : Aead} {src : ι ⊕ κ} {dst : ι} {l : LinkState} {wire queue shed : List (Item κ)}

theorem LinkTracks.write (h : net.LinkTracks A src dst l wire queue shed) {t : Item κ}
    {packet : SphinxPacket} {bytes : List UInt8} (ht : net.Inbound dst t packet)
    (hbytes : OnWire A (net.inbound src dst).sessionKey none bytes [packet]) :
    net.LinkTracks A src dst { l with unread := l.unread ++ bytes } (wire ++ [t]) queue shed := by
  obtain ⟨current, packets, hstream, hcurrent, hwire⟩ := h.stream
  exact
    { h with
      stream := ⟨current, packets ++ [packet], hstream.append hbytes, hcurrent,
        List.rel_append hwire (.cons ht .nil)⟩ }

theorem LinkTracks.cover (h : net.LinkTracks A src dst l wire queue shed) {frame : List UInt8}
    {cell : Cell} (hlength : frame.length = linkFrameLen)
    (hopen : (net.inbound src dst).sessionKey.openFrame A frame = .ok cell)
    (hinert : isCoverCell cell = true) :
    net.LinkTracks A src dst { l with unread := l.unread ++ frame } wire queue shed := by
  obtain ⟨current, packets, hstream, hcurrent, hwire⟩ := h.stream
  have hframe := hstream.append (.cover hlength hopen hinert .nil)
  rw [List.append_nil, List.append_nil] at hframe
  exact { h with stream := ⟨current, packets, hframe, hcurrent, hwire⟩ }

/-- **Reading a frame** leaves the items of the link, or moves the first one into the queue or
drops it. -/
theorem LinkTracks.read (h : net.LinkTracks A src dst l wire queue shed) (room : Bool)
    (hunread : linkFrameLen ≤ l.unread.length) :
    let l' := { l with
      unread := l.unread.drop linkFrameLen
      conn := l.conn.onFrame A (net.inbound src dst) (l.unread.take linkFrameLen) true
        (roomFor room) }
    net.LinkTracks A src dst l' wire queue shed ∨
      ∃ t wire', wire = t :: wire' ∧
        (room = true → net.LinkTracks A src dst l' wire' (queue ++ [t]) shed) ∧
        (room = false → net.LinkTracks A src dst l' wire' queue (shed ++ [t])) := by
  intro l'
  obtain ⟨current, packets, hstream, hcurrent, hwire⟩ := h.stream
  have hread := Connection.read_of_onWire h.ended hstream hcurrent hunread (roomFor room)
  obtain ⟨opened, r, current', hafter, hcurrent', hrest⟩ |
    ⟨opened, packet, packets', rfl, hafter, hrest⟩ := hread
  · left
    have hconn : l'.conn = { l.conn with opened := opened, reassembler := r } := hafter
    refine ⟨?_, ⟨current', packets, hrest, ?_, hwire⟩, ?_, ?_, ?_⟩
    · rw [hconn]
      exact h.ended
    · rw [hconn]
      exact hcurrent'
    · rw [hconn]
      exact h.taken_le
    · rw [hconn]
      exact h.queued
    · rw [hconn]
      exact h.shed
  · right
    obtain ⟨t, wire', ht, hwire', rfl⟩ := List.forall₂_cons_right_iff.mp hwire
    refine ⟨t, wire', rfl, ?_, ?_⟩
    · rintro rfl
      have hconn : l'.conn = { l.conn with
          opened := opened, reassembler := .new, enqueued := l.conn.enqueued ++ [packet] } := hafter
      refine ⟨?_, ⟨none, packets', hrest, ?_, hwire'⟩, ?_, ?_, ?_⟩
      · rw [hconn]
        exact h.ended
      · rw [hconn]
        rfl
      · rw [hconn]
        show l.taken ≤ (l.conn.enqueued ++ [packet]).length
        rw [List.length_append]
        exact Nat.le_add_right_of_le h.taken_le
      · rw [hconn]
        show List.Forall₂ _ _ ((l.conn.enqueued ++ [packet]).drop l.taken)
        rw [List.drop_append_of_le_length h.taken_le]
        exact List.rel_append h.queued (.cons ht .nil)
      · rw [hconn]
        exact h.shed
    · rintro rfl
      have hconn : l'.conn = { l.conn with
          opened := opened, reassembler := .new, queueDropped := l.conn.queueDropped + 1 } := hafter
      refine ⟨?_, ⟨none, packets', hrest, ?_, hwire'⟩, ?_, ?_, ?_⟩
      · rw [hconn]
        exact h.ended
      · rw [hconn]
        rfl
      · rw [hconn]
        exact h.taken_le
      · rw [hconn]
        exact h.queued
      · rw [hconn, List.length_append, h.shed]
        rfl

/-- **The fair drain** takes the packet of the first item in the queue. -/
theorem LinkTracks.take (h : net.LinkTracks A src dst l wire queue shed) {packet : SphinxPacket}
    (hpacket : l.conn.enqueued[l.taken]? = some packet) :
    ∃ t queue', queue = t :: queue' ∧ net.Inbound dst t packet ∧
      net.LinkTracks A src dst { l with taken := l.taken + 1 } wire queue' shed := by
  obtain ⟨t, queue', rfl, ht, hqueue'⟩ := exists_head_of_getElem? h.queued hpacket
  obtain ⟨hlt, -⟩ := List.getElem?_eq_some_iff.mp hpacket
  exact ⟨t, queue', rfl, ht, { h with taken_le := hlt, queued := hqueue' }⟩

end Link

/-! ## Relays -/

section Relay

variable {net} {i : ι} {r r' : RelayLoop ρ} {dispatched : ℕ} {outbound unmixed : List (Item κ)}

/-- **A packet that is forwarded** is on the outbound queue, or counted. -/
theorem RelayTracks.forward (h : net.RelayTracks i r dispatched outbound unmixed) {t : Item κ}
    {nextHop : RelayId} {q : SphinxPacket} {replay : ReplayCache} {room : Bool}
    (hforward : Forwards r r' nextHop q replay room)
    (ht : ∀ delay, net.Outgoing i t ⟨nextHop, q, delay⟩) :
    (room = true → net.RelayTracks i r' dispatched (outbound ++ [t]) unmixed) ∧
      (room = false → net.RelayTracks i r' dispatched outbound (unmixed ++ [t])) := by
  constructor
  · intro hroom
    obtain ⟨delay, hout, hdropped⟩ := hforward.sent hroom
    refine ⟨hforward.running, ?_, ?_, ?_⟩
    · rw [hout, List.length_append]
      exact Nat.le_add_right_of_le h.dispatched_le
    · rw [hout, List.drop_append_of_le_length h.dispatched_le]
      exact List.rel_append h.outbound (.cons (ht delay) .nil)
    · rw [hdropped]
      exact h.unmixed
  · intro hroom
    obtain ⟨hout, hdropped⟩ := hforward.dropped hroom
    refine ⟨hforward.running, ?_, ?_, ?_⟩
    · rw [hout]
      exact h.dispatched_le
    · rw [hout]
      exact h.outbound
    · rw [hdropped, List.length_append, h.unmixed]
      rfl

/-- **The dispatcher** takes the packet of the first item on the outbound queue. -/
theorem RelayTracks.dispatch (h : net.RelayTracks i r dispatched outbound unmixed)
    {fwd : ForwardedPacket} (hfwd : r.outbound[dispatched]? = some fwd) :
    ∃ t outbound', outbound = t :: outbound' ∧ net.Outgoing i t fwd ∧
      net.RelayTracks i r (dispatched + 1) outbound' unmixed := by
  obtain ⟨t, outbound', rfl, ht, hrest⟩ := exists_head_of_getElem? h.outbound hfwd
  obtain ⟨hlt, -⟩ := List.getElem?_eq_some_iff.mp hfwd
  exact ⟨t, outbound', rfl, ht, { h with dispatched_le := hlt, outbound := hrest }⟩

theorem RelayTracks.command (h : net.RelayTracks i r dispatched outbound unmixed)
    {node : RelayNode C} {e : RelayEvent} (he : RelayLoop.isCommand e = true) :
    net.RelayTracks i (r.step node e) dispatched outbound unmixed := by
  obtain ⟨hrunning, -, hout, hdropped⟩ := RelayLoop.step_of_isCommand node r he
  refine ⟨hrunning.trans h.running, ?_, ?_, ?_⟩
  · rw [hout]
    exact h.dispatched_le
  · rw [hout]
    exact h.outbound
  · rw [hdropped]
    exact h.unmixed

end Relay

variable [DecidableEq ι] [DecidableEq κ]

/-- The list and the state of the network agree on where every packet is. -/
structure Tracks (A : Aead) (s : MixnetState ι κ ρ) (l : List (Place ι κ × Item κ)) : Prop where
  sent : (l.map fun x => x.2.1).Perm s.sent
  nodup : s.sent.Nodup
  link : ∀ src dst, net.LinkTracks A src dst (s.link src dst) (queue l (.wire src dst))
    (queue l (.queue src dst)) (queue l (.shed src dst))
  relay : ∀ i, net.RelayTracks i (s.relay i) (s.dispatched i) (queue l (.outbound i))
    (queue l (.unmixed i))
  cache : ∀ i, ∀ e ∈ (s.relay i).replay.order, net.Remembered l i e.2
  exited : ∀ i, List.Forall₂ (net.AtExit i) (queue l (.exit i)) (s.exited i)
  undispatched : ∀ i, (queue l (.undispatched i)).length = s.peerDropped i

/-! ## The work that is left -/

/-- The frames of a packet on one link, the mix loop and the dispatcher. -/
def hopCost : ℕ := sphinxFragmentCount + 2

/-- The steps that an item still takes, without the frames that are on a link already. -/
def weight : Place ι κ × Item κ → ℕ
  | (.wire _ _, t) | (.queue _ _, t) => 2 + hopCost * ((net.path t.1).length - (t.2 + 1))
  | (.outbound _, t) => 1 + hopCost * ((net.path t.1).length - t.2)
  | _ => 0

/-- The steps that are left, in bytes. -/
def potential [Fintype ι] [Fintype κ] (s : MixnetState ι κ ρ) (l : List (Place ι κ × Item κ)) : ℕ :=
  s.unread + linkFrameLen * (l.map net.weight).sum

/-- The steps that bring packets on their way. -/
def cost : MixnetEvent ι κ → ℕ
  | .read _ _ _ | .mix _ _ _ | .dispatch _ _ => 1
  | _ => 0

/-- The steps that an event makes necessary. -/
def gain : MixnetEvent ι κ → ℕ
  | .send k => hopCost * (net.path k).length
  | .cover _ _ _ => 1
  | _ => 0

/-- An event takes from the work that is left. -/
def Pays [Fintype ι] [Fintype κ] (e : MixnetEvent ι κ) (s : MixnetState ι κ ρ)
    (l : List (Place ι κ × Item κ)) (s' : MixnetState ι κ ρ) (l' : List (Place ι κ × Item κ)) :
    Prop :=
  net.potential s' l' + linkFrameLen * cost e ≤ net.potential s l + linkFrameLen * net.gain e

/-! ## Steps -/

section Step

variable {net} {A : Aead} {s : MixnetState ι κ ρ} {l : List (Place ι κ × Item κ)}

/-- Where a layer has been opened stays in the list. -/
theorem Remembered.move {i : ι} {tag : ReplayTag} (h : net.Remembered l i tag) {p q : Place ι κ}
    {t : Item κ} {ts : List (Item κ)} {n : ℕ} (hhead : queue l p = t :: ts) (hn : t.2 ≤ n) :
    net.Remembered (Placement.move l p q (t.1, n)) i tag := by
  obtain ⟨x, hx, m, hm, hpath, htag⟩ := h
  rcases List.mem_cons.mp ((perm_take hhead).mem_iff.mpr hx) with rfl | hx
  · exact ⟨(q, t.1, n), List.mem_append_right _ List.mem_cons_self, m, hm.trans_le hn, hpath, htag⟩
  · exact ⟨x, List.mem_append_left _ hx, m, hm, hpath, htag⟩

/-- A move keeps the clients. -/
theorem perm_clients {p : Place ι κ} {t : Item κ} {ts : List (Item κ)} (h : queue l p = t :: ts)
    (q : Place ι κ) (n : ℕ) :
    ((Placement.move l p q (t.1, n)).map fun x => x.2.1).Perm (l.map fun x => x.2.1) := by
  refine perm_move (fun x => x.2.1) h ?_
  rfl

omit [DecidableEq ι] [DecidableEq κ] in
theorem Remembered.put {i : ι} {tag : ReplayTag} (h : net.Remembered l i tag) (p : Place ι κ)
    (t : Item κ) : net.Remembered (Placement.put l p t) i tag := by
  obtain ⟨x, hx, hrest⟩ := h
  exact ⟨x, List.mem_append_left _ hx, hrest⟩

/-- **The tag of a packet on its way is fresh** for the relay it is going to. -/
theorem Tracks.fresh (h : net.Tracks A s l) (hsound : net.Sound A) {p : Place ι κ} {k : κ} {n : ℕ}
    {i : ι} {o : Onion} (hmem : (p, k, n) ∈ l) (hi : (net.path k)[n]? = some i)
    (ho : net.onion k = some o) :
    (s.relay i).replay.ctContains (replayTag C o.secrets[n]!) = false := by
  refine ReplayCache.ctContains_of_not_mem fun e he htag => ?_
  obtain ⟨x, hx, m, hm, hpath, o', ho', htag'⟩ := h.cache i e he
  obtain ⟨hk, rfl⟩ := hsound.tags _ _ _ _ i o' o hpath hi ho' ho (htag'.symm.trans htag)
  -- a client has one item
  have hkeys : (l.map fun x => x.2.1).Nodup := h.sent.nodup_iff.mpr h.nodup
  have hsame : x = (p, k, m) := List.inj_on_of_nodup_map hkeys hx hmem hk
  rw [hsame] at hm
  exact Nat.lt_irrefl _ hm

section Pays

variable [Fintype ι] [Fintype κ] {s' : MixnetState ι κ ρ} {l' : List (Place ι κ × Item κ)}

omit [DecidableEq ι] [DecidableEq κ] in
theorem pays_iff {e : MixnetEvent ι κ} :
    net.Pays e s l s' l' ↔ s'.unread + 540 * (l'.map net.weight).sum + 540 * cost e ≤
      s.unread + 540 * (l.map net.weight).sum + 540 * net.gain e := Iff.rfl

omit [DecidableEq ι] [DecidableEq κ] in
theorem unread_congr (h : s'.link = s.link) : s'.unread = s.unread := by
  unfold MixnetState.unread
  rw [h]

/-- A packet is written on its first link. -/
theorem pays_send {k : κ} {entry : ι} {bytes : List UInt8} (hpos : 0 < (net.path k).length)
    (hlength : bytes.length = packetWireLen)
    (hlink : s'.link = (s.write (.inr k) entry bytes).link) :
    net.Pays (.send k) s l s' (put l (.wire (.inr k) entry) (k, 0)) := by
  have hunread := unread_congr hlink
  have hwrite := s.unread_write (.inr k) entry bytes
  have hweight : ((put l (.wire (.inr k) entry) (k, 0)).map net.weight).sum =
      (l.map net.weight).sum + (2 + 20 * ((net.path k).length - 1)) := sum_put net.weight
  have hframes : packetWireLen = 9720 := rfl
  have hgain : net.gain (.send k) = 20 * (net.path k).length := rfl
  have hcost : cost (.send k : MixnetEvent ι κ) = 0 := rfl
  rw [pays_iff]
  omega

/-- A frame of cover is written. -/
theorem pays_cover {src : ι ⊕ κ} {dst : ι} {frame : List UInt8}
    (hlength : frame.length = linkFrameLen) :
    net.Pays (.cover src dst frame) s l (s.write src dst frame) l := by
  have hwrite := s.unread_write src dst frame
  have hframe : linkFrameLen = 540 := rfl
  have hgain : net.gain (.cover src dst frame) = 1 := rfl
  have hcost : cost (.cover src dst frame : MixnetEvent ι κ) = 0 := rfl
  rw [pays_iff]
  omega

/-- A frame is read, and an item moved to where no more is left to do. -/
theorem pays_read {src : ι ⊕ κ} {dst : ι} {conn : Connection} (room : Bool)
    (hunread : linkFrameLen ≤ (s.link src dst).unread.length)
    (hweight : (l'.map net.weight).sum ≤ (l.map net.weight).sum)
    (hlink : s'.link = (s.setLink src dst
      { s.link src dst with
        unread := (s.link src dst).unread.drop linkFrameLen
        conn := conn }).link) :
    net.Pays (.read src dst room) s l s' l' := by
  have hsame := unread_congr hlink
  have hset := s.unread_setLink src dst
    { s.link src dst with
      unread := (s.link src dst).unread.drop linkFrameLen
      conn := conn }
  rw [List.length_drop] at hset
  have hframe : linkFrameLen = 540 := rfl
  have hgain : net.gain (.read src dst room) = 0 := rfl
  have hcost : cost (.read src dst room : MixnetEvent ι κ) = 1 := rfl
  rw [pays_iff]
  omega

/-- An item is moved to where less is left to do. -/
theorem pays_move {e : MixnetEvent ι κ} {p q : Place ι κ} {t t' : Item κ} {ts : List (Item κ)}
    (hhead : queue l p = t :: ts) (hcost : cost e = 1)
    (hless : net.weight (q, t') + 1 ≤ net.weight (p, t)) (hunread : s'.unread = s.unread) :
    net.Pays e s l s' (move l p q t') := by
  have hweight := sum_move net.weight q t' hhead
  rw [pays_iff]
  omega

/-- A packet is written on its next link. -/
theorem pays_forward {i j : ι} {t : Item κ} {ts : List (Item κ)} {bytes : List UInt8} (room : Bool)
    (hhead : queue l (.outbound i) = t :: ts) (hnext : (net.path t.1)[t.2]? = some j)
    (hlength : bytes.length = packetWireLen)
    (hlink : s'.link = (s.write (.inl i) j bytes).link) :
    net.Pays (.dispatch i room) s l s' (move l (.outbound i) (.wire (.inl i) j) t) := by
  obtain ⟨hlt, -⟩ := List.getElem?_eq_some_iff.mp hnext
  have hweight := sum_move net.weight (.wire (.inl i) j) t hhead
  have hwire : net.weight (Place.wire (.inl i) j, t) =
      2 + 20 * ((net.path t.1).length - (t.2 + 1)) := rfl
  have hout : net.weight (Place.outbound (κ := κ) i, t) =
      1 + 20 * ((net.path t.1).length - t.2) := rfl
  have hunread := unread_congr hlink
  have hwrite := s.unread_write (.inl i) j bytes
  have hframes : packetWireLen = 9720 := rfl
  have hcost : cost (.dispatch i room : MixnetEvent ι κ) = 1 := rfl
  have hgain : net.gain (.dispatch i room) = 0 := rfl
  rw [pays_iff]
  omega

end Pays

variable [Fintype ι] [Fintype κ]

/-- **A client sends.** -/
theorem Tracks.send (h : net.Tracks A s l) (hsound : net.Sound A) {k : κ} {entry : ι}
    {rest : List ι} {packet : SphinxPacket} {rng : ρ} {bytes : List UInt8} (hk : k ∉ s.sent)
    (hpath : net.path k = entry :: rest)
    (hbuild : build C (net.hops k) (net.payload k) (net.clientRng k) = .ok (packet, rng))
    (hbytes : (net.packetBytes A (.inr k) entry packet rng).1 = .ok bytes) :
    let s' := { s.write (.inr k) entry bytes with sent := s.sent ++ [k] }
    let l' := put l (.wire (.inr k) entry) (k, 0)
    net.Tracks A s' l' ∧ net.Pays (.send k) s l s' l' := by
  dsimp only
  obtain ⟨o, hcarried⟩ := carried_of_build hbuild
  obtain ⟨bytes', hbytes', hlength, hstream⟩ :=
    net.onWire_packetBytes hsound.aead (.inr k) entry packet rng
  obtain rfl := Except.ok.inj (hbytes.symm.trans hbytes')
  have hpos : 0 < (net.path k).length := by
    rw [hpath]
    exact Nat.succ_pos _
  have hinbound : net.Inbound entry (k, 0) packet := ⟨by rw [hpath]; rfl, o, hcarried⟩
  refine ⟨⟨?_, ?_, fun src dst => ?_, fun i => ?_, fun i e he => (h.cache i e he).put _ _,
    fun i => ?_, fun i => ?_⟩, pays_send hpos hlength rfl⟩
  · rw [put, List.map_append]
    exact h.sent.append_right _
  · exact List.nodup_append.mpr ⟨h.nodup, List.nodup_singleton k, by
      rintro a ha b hb rfl
      rw [List.mem_singleton.mp hb] at ha
      exact hk ha⟩
  · simp only [queue_put, reduceCtorEq, if_false, Place.wire.injEq]
    show net.LinkTracks A src dst ((s.write (.inr k) entry bytes).link src dst) _ _ _
    rw [MixnetState.write, MixnetState.link_setLink]
    by_cases hlink : src = .inr k ∧ dst = entry
    · obtain ⟨rfl, rfl⟩ := hlink
      rw [if_pos ⟨rfl, rfl⟩, if_pos ⟨rfl, rfl⟩]
      exact (h.link _ _).write hinbound hstream
    · rw [if_neg hlink, if_neg fun heq => hlink ⟨heq.1.symm, heq.2.symm⟩]
      exact h.link src dst
  · simp only [queue_put, reduceCtorEq, if_false]
    exact h.relay i
  · simp only [queue_put, reduceCtorEq, if_false]
    exact h.exited i
  · simp only [queue_put, reduceCtorEq, if_false]
    exact h.undispatched i

/-- **Cover** changes nothing. -/
theorem Tracks.cover (h : net.Tracks A s l) {src : ι ⊕ κ} {dst : ι} {frame : List UInt8}
    {cell : Cell} (hlength : frame.length = linkFrameLen)
    (hopen : (net.inbound src dst).sessionKey.openFrame A frame = .ok cell)
    (hinert : isCoverCell cell = true) :
    net.Tracks A (s.write src dst frame) l ∧
      net.Pays (.cover src dst frame) s l (s.write src dst frame) l := by
  refine ⟨{ h with link := fun src' dst' => ?_ }, pays_cover hlength⟩
  rw [MixnetState.write, MixnetState.link_setLink]
  split
  · rename_i hlink
    obtain ⟨rfl, rfl⟩ := hlink
    exact (h.link _ _).cover hlength hopen hinert
  · exact h.link src' dst'

/-- **A command** moves no packet. -/
theorem Tracks.command (h : net.Tracks A s l) (i : ι) {e : RelayEvent}
    (he : RelayLoop.isCommand e = true) :
    let s' := { s with relay := Function.update s.relay i ((s.relay i).step (net.node i) e) }
    net.Tracks A s' l ∧ net.Pays (.command i e) s l s' l := by
  dsimp only
  refine ⟨{ h with relay := fun j => ?_, cache := fun j x hx => ?_ }, le_rfl⟩
  · by_cases hj : j = i
    · subst hj
      simp only [Function.update_self]
      exact (h.relay j).command he
    · simp only [Function.update_of_ne hj]
      exact h.relay j
  · by_cases hj : j = i
    · subst hj
      simp only [Function.update_self] at hx
      rw [(RelayLoop.step_of_isCommand _ _ he).2.1] at hx
      exact h.cache j x hx
    · simp only [Function.update_of_ne hj] at hx
      exact h.cache j x hx

/-- **A frame is read.** -/
theorem Tracks.read (h : net.Tracks A s l) {src : ι ⊕ κ} {dst : ι} (room : Bool)
    (hunread : linkFrameLen ≤ (s.link src dst).unread.length) :
    let s' := s.setLink src dst
      { s.link src dst with
        unread := (s.link src dst).unread.drop linkFrameLen
        conn := (s.link src dst).conn.onFrame A (net.inbound src dst)
          ((s.link src dst).unread.take linkFrameLen) true (roomFor room) }
    ∃ l', net.Tracks A s' l' ∧ net.Pays (.read src dst room) s l s' l' := by
  dsimp only
  rcases (h.link src dst).read room hunread with hlink | ⟨t, wire', hwire, hroom, hfull⟩
  · refine ⟨l, { h with link := fun src' dst' => ?_ }, pays_read room hunread le_rfl rfl⟩
    rw [MixnetState.link_setLink]
    split
    · rename_i heq
      obtain ⟨rfl, rfl⟩ := heq
      exact hlink
    · exact h.link src' dst'
  · have hsum := sum_move net.weight (if room then .queue src dst else .shed src dst) t hwire
    have hle : net.weight (if room then .queue src dst else .shed src dst, t) ≤
        net.weight (.wire src dst, t) := by
      cases room with
      | true => exact le_rfl
      | false => exact Nat.zero_le _
    refine ⟨move l (.wire src dst) (if room then .queue src dst else .shed src dst) t,
      ⟨?_, h.nodup, fun src' dst' => ?_, fun i => ?_,
        fun i e he => (h.cache i e he).move hwire le_rfl, fun i => ?_, fun i => ?_⟩,
      pays_read room hunread (by omega) rfl⟩
    · exact (perm_clients hwire _ _).trans h.sent
    · rw [MixnetState.link_setLink]
      by_cases heq : src' = src ∧ dst' = dst
      · obtain ⟨rfl, rfl⟩ := heq
        rw [if_pos ⟨rfl, rfl⟩]
        cases room with
        | true => simpa [queue_move, hwire] using hroom rfl
        | false => simpa [queue_move, hwire] using hfull rfl
      · have hne : ¬(src = src' ∧ dst = dst') := fun hlink => heq ⟨hlink.1.symm, hlink.2.symm⟩
        rw [if_neg heq]
        cases room <;> simpa [queue_move, hne] using h.link src' dst'
    · cases room <;> simpa [queue_move] using h.relay i
    · cases room <;> simpa [queue_move] using h.exited i
    · cases room <;> simpa [queue_move] using h.undispatched i

/-- **A packet is mixed.** -/
theorem Tracks.mix (h : net.Tracks A s l) (hsound : net.Sound A) {src : ι ⊕ κ} {dst : ι}
    (room : Bool) {packet : SphinxPacket}
    (hpacket : (s.link src dst).conn.enqueued[(s.link src dst).taken]? = some packet) :
    let s' :=
      { s.setLink src dst { s.link src dst with taken := (s.link src dst).taken + 1 } with
        relay := Function.update s.relay dst
          ((s.relay dst).step (net.node dst) (.packet packet (roomFor room))) }
    ∃ l', net.Tracks A s' l' ∧ net.Pays (.mix src dst room) s l s' l' := by
  dsimp only
  obtain ⟨t, queue', hqueue, ⟨hdst, o, hcarried⟩, hlink⟩ := (h.link src dst).take hpacket
  -- what the relay does with the packet
  have hmem : (Place.queue src dst, t) ∈ l := mem_queue.mp (by
    rw [hqueue]
    exact List.mem_cons_self)
  have hfresh := h.fresh hsound hmem hdst hcarried.onion
  obtain ⟨q, hproc, hnext, hreplay⟩ := hcarried.process hsound hdst hfresh
  have hsink : isCoverSinkHop (net.named t.1 (t.2 + 1) o) = false := by
    unfold named
    cases hj : (net.path t.1)[t.2 + 1]? with
    | some j => exact (hsound.roster _ _ _ _ hdst hj).2
    | none => exact (hsound.exit t.1 dst o (getLast?_of_getElem? hdst hj).1 hcarried.onion).2.2
  have hforward := RelayLoop.forwards_of_process (h.relay dst).running hproc hsink room
  have hout : ∀ delay, net.Outgoing dst (t.1, t.2 + 1) ⟨net.named t.1 (t.2 + 1) o, q, delay⟩ :=
    fun delay => ⟨t.2, o, rfl, hdst, hnext, rfl⟩
  obtain ⟨hroom, hfull⟩ := (h.relay dst).forward hforward hout
  have hless : net.weight (if room then .outbound dst else .unmixed dst, t.1, t.2 + 1) + 1 ≤
      net.weight (.queue src dst, t) := by
    cases room with
    | true => exact (Nat.add_right_comm 1 _ 1).le
    | false =>
      show 0 + 1 ≤ 2 + hopCost * ((net.path t.1).length - (t.2 + 1))
      omega
  have hunread : (s.setLink src dst { s.link src dst with
      taken := (s.link src dst).taken + 1 }).unread = s.unread :=
    Nat.add_right_cancel (s.unread_setLink src dst _)
  refine ⟨_, ⟨?_, h.nodup, fun src' dst' => ?_, fun i => ?_, fun i e he => ?_, fun i => ?_,
    fun i => ?_⟩, pays_move hqueue rfl hless hunread⟩
  · exact (perm_clients hqueue _ _).trans h.sent
  · show net.LinkTracks A src' dst' ((s.setLink src dst _).link src' dst') _ _ _
    rw [MixnetState.link_setLink]
    by_cases heq : src' = src ∧ dst' = dst
    · obtain ⟨rfl, rfl⟩ := heq
      rw [if_pos ⟨rfl, rfl⟩]
      cases room <;> simpa [queue_move, hqueue] using hlink
    · have hne : ¬(src = src' ∧ dst = dst') := fun hlink => heq ⟨hlink.1.symm, hlink.2.symm⟩
      rw [if_neg heq]
      cases room <;> simpa [queue_move, hne] using h.link src' dst'
  · by_cases hi : i = dst
    · subst hi
      simp only [Function.update_self]
      cases room with
      | true => simpa [queue_move] using hroom rfl
      | false => simpa [queue_move] using hfull rfl
    · simp only [Function.update_of_ne hi]
      cases room <;> simpa [queue_move, Ne.symm hi] using h.relay i
  · by_cases hi : i = dst
    · subst hi
      simp only [Function.update_self] at he
      rw [hforward.replay, hreplay] at he
      rcases ReplayCache.mem_order_checkAndInsert he with he | htag
      · exact (h.cache i e he).move hqueue (Nat.le_succ _)
      · exact ⟨_, List.mem_append_right _ List.mem_cons_self, t.2, Nat.lt_succ_self _, hdst, o,
          hcarried.onion, htag⟩
    · simp only [Function.update_of_ne hi] at he
      exact (h.cache i e he).move hqueue (Nat.le_succ _)
  · cases room <;> simpa [queue_move] using h.exited i
  · cases room <;> simpa [queue_move] using h.undispatched i

/-- **A packet is dispatched.** -/
theorem Tracks.dispatch (h : net.Tracks A s l) (hsound : net.Sound A) {i : ι} (room : Bool)
    {fwd : ForwardedPacket} (hfwd : (s.relay i).outbound[s.dispatched i]? = some fwd) :
    let s' := net.route A
      { s with dispatched := Function.update s.dispatched i (s.dispatched i + 1) } i fwd room
    ∃ l', net.Tracks A s' l' ∧ net.Pays (.dispatch i room) s l s' l' := by
  dsimp only
  obtain ⟨t, outbound', hhead, ⟨n, o, hn, hi, hcarried, hnamed⟩, hrelay⟩ :=
    (h.relay i).dispatch hfwd
  have hkeep : t = (t.1, t.2) := rfl
  have hrelays : ∀ j (p : Place ι κ), p ≠ .outbound j → p ≠ .unmixed j →
      net.RelayTracks j (s.relay j) (Function.update s.dispatched i (s.dispatched i + 1) j)
        (queue (move l (.outbound i) p t) (.outbound j))
        (queue (move l (.outbound i) p t) (.unmixed j)) := by
    intro j p hout hmix
    rw [queue_move, queue_move, if_neg hout, if_neg hmix, List.append_nil, List.append_nil]
    by_cases hj : j = i
    · subst hj
      simpa [hhead] using hrelay
    · simpa [hj, Ne.symm hj] using h.relay j
  have hless : 0 + 1 ≤ net.weight (Place.outbound i, t) := Nat.le_add_right _ _
  unfold route
  cases hnext : (net.path t.1)[t.2]? with
  | some j =>
    have hpeer : net.peerTable i fwd.nextHop = some j := by
      rw [hnamed, named, hnext]
      exact (hsound.roster _ _ _ _ hi (hn ▸ hnext)).1
    rw [hpeer]
    cases room with
    | false =>
      simp only [if_true]
      refine ⟨move l (.outbound i) (.undispatched i) t, ⟨(perm_clients hhead _ _).trans h.sent,
        h.nodup, fun src dst => ?_, fun j' => hrelays j' _ (by simp) (by simp),
        fun j' e he => (h.cache j' e he).move hhead le_rfl, fun j' => ?_, fun j' => ?_⟩,
        pays_move hhead rfl hless rfl⟩
      · simpa [queue_move] using h.link src dst
      · simpa [queue_move] using h.exited j'
      · have hdropped := h.undispatched j'
        by_cases hj : j' = i
        · subst hj
          simp [queue_move, hdropped]
        · simp [queue_move, hdropped, hj, Ne.symm hj]
    | true =>
      obtain ⟨bytes, hbytes, hlength, hstream⟩ :=
        net.onWire_packetBytes hsound.aead (.inl i) j fwd.packet (s.bridgeRng i)
      simp only [Bool.true_eq_false, if_false, hbytes]
      refine ⟨move l (.outbound i) (.wire (.inl i) j) t, ⟨(perm_clients hhead _ _).trans h.sent,
        h.nodup, fun src dst => ?_, fun j' => hrelays j' _ (by simp) (by simp),
        fun j' e he => (h.cache j' e he).move hhead le_rfl, fun j' => ?_, fun j' => ?_⟩,
        pays_forward true hhead hnext hlength rfl⟩
      · rw [MixnetState.write, MixnetState.link_setLink]
        by_cases heq : src = .inl i ∧ dst = j
        · obtain ⟨rfl, rfl⟩ := heq
          rw [if_pos ⟨rfl, rfl⟩]
          simpa [queue_move] using (h.link (.inl i) dst).write ⟨hnext, o, hcarried⟩ hstream
        · have hne : ¬(.inl i = src ∧ j = dst) := fun hlink => heq ⟨hlink.1.symm, hlink.2.symm⟩
          rw [if_neg heq]
          simpa [queue_move, hne] using h.link src dst
      · simpa [queue_move, MixnetState.write] using h.exited j'
      · simpa [queue_move, MixnetState.write] using h.undispatched j'
  | none =>
    obtain ⟨hlast, hlen⟩ := getLast?_of_getElem? hi (hn ▸ hnext)
    obtain ⟨hexit, hpeer, -⟩ := hsound.exit _ _ _ hlast hcarried.onion
    have hpeer' : net.peerTable i fwd.nextHop = none := by
      rw [hnamed, named, hnext]
      exact hpeer
    rw [hn, hlen] at hcarried
    have hdone : net.AtExit i t fwd.packet := ⟨hlast, hcarried.payload⟩
    rw [hpeer', hexit]
    dsimp only
    rw [if_pos rfl]
    refine ⟨move l (.outbound i) (.exit i) t, ⟨(perm_clients hhead _ _).trans h.sent, h.nodup,
      fun src dst => ?_, fun j => hrelays j _ (by simp) (by simp),
      fun j e he => (h.cache j e he).move hhead le_rfl, fun j => ?_, fun j => ?_⟩,
      pays_move hhead rfl hless rfl⟩
    · simpa [queue_move] using h.link src dst
    · by_cases hj : j = i
      · subst hj
        simpa [queue_move] using List.rel_append (h.exited j) (.cons hdone .nil)
      · simpa [queue_move, hj, Ne.symm hj] using h.exited j
    · simpa [queue_move] using h.undispatched j

/-- **Every step keeps the list and the network together.** -/
theorem Tracks.step (h : net.Tracks A s l) (hsound : net.Sound A) {e : MixnetEvent ι κ}
    {s' : MixnetState ι κ ρ} (hstep : net.step A s e = some s') :
    ∃ l', net.Tracks A s' l' ∧ net.Pays e s l s' l' := by
  unfold Mixnet.step at hstep
  cases e with
  | send k =>
    dsimp only at hstep
    split at hstep
    · cases hstep
    · rename_i hk
      split at hstep
      · rename_i entry rest packet rng hpath hbuild
        split at hstep
        · cases hstep
        · rename_i bytes hbytes
          obtain rfl := Option.some.inj hstep
          exact ⟨_, h.send hsound hk hpath hbuild hbytes⟩
      · cases hstep
  | cover src dst frame =>
    dsimp only at hstep
    split at hstep
    · rename_i hlength
      split at hstep
      · cases hstep
      · rename_i cell hopen
        split at hstep
        · rename_i hinert
          obtain rfl := Option.some.inj hstep
          exact ⟨l, h.cover hlength hopen hinert⟩
        · cases hstep
    · cases hstep
  | command i e =>
    dsimp only at hstep
    split at hstep
    · rename_i he
      obtain rfl := Option.some.inj hstep
      exact ⟨l, h.command i he⟩
    · cases hstep
  | read src dst room =>
    dsimp only at hstep
    split at hstep
    · cases hstep
    · rename_i hunread
      obtain rfl := Option.some.inj hstep
      exact h.read room (Nat.le_of_not_lt hunread)
  | mix src dst room =>
    dsimp only at hstep
    split at hstep
    · cases hstep
    · rename_i packet hpacket
      obtain rfl := Option.some.inj hstep
      exact h.mix hsound room hpacket
  | dispatch i room =>
    dsimp only at hstep
    split at hstep
    · cases hstep
    · rename_i fwd hfwd
      obtain rfl := Option.some.inj hstep
      exact h.dispatch hsound room hfwd

variable (net A) in
omit [Fintype ι] [Fintype κ] in
/-- Nothing has been sent. -/
theorem tracks_start : net.Tracks A net.start [] where
  sent := List.Perm.refl _
  nodup := List.nodup_nil
  link _ _ := ⟨rfl, ⟨none, [], .nil, rfl, .nil⟩, le_rfl, .nil, rfl⟩
  relay _ := ⟨rfl, le_rfl, .nil, rfl⟩
  cache _ _ he := by cases he
  exited _ := .nil
  undispatched _ := rfl

/-- **Every run keeps them together**, and has paid for its steps. -/
theorem Tracks.run (h : net.Tracks A s l) (hsound : net.Sound A) {events : List (MixnetEvent ι κ)}
    {s' : MixnetState ι κ ρ} (hrun : net.run A s events = some s') :
    ∃ l', net.Tracks A s' l' ∧
      net.potential s' l' + linkFrameLen * (events.map cost).sum ≤
        net.potential s l + linkFrameLen * (events.map net.gain).sum := by
  unfold Mixnet.run at hrun
  induction events generalizing s l with
  | nil =>
    obtain rfl := Option.some.inj hrun
    exact ⟨l, h, le_rfl⟩
  | cons e events ih =>
    rw [List.foldlM_cons] at hrun
    obtain ⟨t, hstep, hrest⟩ := Option.bind_eq_some_iff.mp hrun
    obtain ⟨l₁, h₁, hpays⟩ := h.step hsound hstep
    obtain ⟨l', h', hpaid⟩ := ih h₁ hrest
    refine ⟨l', h', ?_⟩
    rw [List.map_cons, List.sum_cons, List.map_cons, List.sum_cons, Nat.mul_add, Nat.mul_add]
    unfold Pays at hpays
    omega

end Step

end Mixnet

end Aegis
