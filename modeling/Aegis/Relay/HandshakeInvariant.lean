import Aegis.Relay.Handshake

/-!
# Runs of the link handshake

The network is the attacker: every event hands one session any bytes at all.  The
only thing asked of it is that MACs are ideal (`Authentic`): bytes that are a MAC a
session compares them with are that of an input some session has computed the MAC of.

* `InitiatorSession.onFinish_cases`, `ResponderSession.onConfirm_cases`, … — what one
  read can do, said once for each kind of read.
* `Inv.step`, `inv_run` — **a session that accepted a MAC accepted a computed one**,
  in every run.
-/

namespace Aegis

open Buffer

namespace Handshake

variable {ρ : Type} (C : Suite ρ)

/-! ## Computed MACs -/

/-- A MAC some session computed, or checks. -/
structure MacRecord where
  psk : Bytes 32
  role : UInt8
  transcript : LinkHandshakeTranscript
  binding : Option LinkHandshakeBinding

/-- The bytes that are hashed. -/
def MacRecord.input (r : MacRecord) : List UInt8 :=
  macInput (handshakeAuthKey C r.psk) r.role r.transcript r.binding

/-- The MAC itself. -/
def MacRecord.tag (r : MacRecord) : Bytes linkHandshakeMacLen := C.sha3 (r.input C)

variable {C}

/-- The confirm MAC an initiator computes when it has read `resp`. -/
def InitiatorSession.confirm (x : InitiatorSession C) (resp : LinkHandshakeResp) : MacRecord :=
  ⟨x.config.psk, roleInitiator, .fromMessages x.init resp, x.config.binding⟩

/-- The finish MAC an initiator checks. -/
def InitiatorSession.finish (x : InitiatorSession C) (resp : LinkHandshakeResp) : MacRecord :=
  ⟨x.config.psk, roleResponder, .fromMessages x.init resp, x.config.binding⟩

/-- The confirm MAC a responder checks under `psk`. -/
def ResponderSession.confirm (y : ResponderSession C) (hello : ResponderHello C) (psk : Bytes 32) :
    MacRecord :=
  ⟨psk, roleInitiator, hello.transcript, y.config.binding⟩

/-- The finish MAC a responder computes under `psk`. -/
def ResponderSession.finish (y : ResponderSession C) (hello : ResponderHello C) (psk : Bytes 32) :
    MacRecord :=
  ⟨psk, roleResponder, hello.transcript, y.config.binding⟩

/-- The initiator has computed this MAC. -/
def InitiatorSession.Computed (x : InitiatorSession C) (r : MacRecord) : Prop :=
  ∃ resp, x.resp = some resp ∧ r = x.confirm resp

/-- The responder has computed this MAC. -/
def ResponderSession.Computed (y : ResponderSession C) (r : MacRecord) : Prop :=
  ∃ hello psk key, y.hello = some hello ∧ y.accepted = some (psk, key) ∧ r = y.finish hello psk

/-! ## The system -/

variable (C) in
/-- All sessions, and what was recorded in the health tracker. -/
structure State where
  initiators : ℕ → Option (InitiatorSession C)
  responders : ℕ → Option (ResponderSession C)
  outcomes : List (RelayId × Bool)

variable (C) in
/-- Nobody has begun. -/
def State.initial : State C := ⟨fun _ => none, fun _ => none, []⟩

/-- What can happen next.  The bytes delivered are the attacker's choice. -/
inductive Event (ρ : Type) where
  | initiate (i : ℕ) (config : InitiatorConfig) (rng : ρ) (writeOk : Bool)
  | listen (j : ℕ) (config : ResponderConfig)
  | deliverInit (j : ℕ) (msg : List UInt8) (rng : ρ) (writeOk : Bool)
  | deliverResp (i : ℕ) (msg : List UInt8) (writeOk : Bool)
  | deliverConfirm (j : ℕ) (msg : List UInt8) (writeOk : Bool)
  | deliverFinish (i : ℕ) (msg : List UInt8)
  | abortInitiator (i : ℕ)
  | abortResponder (j : ℕ)

/-- Replace one initiator session. -/
def State.setInitiator (s : State C) (i : ℕ) (x : InitiatorSession C) : State C :=
  { s with initiators := Function.update s.initiators i (some x) }

/-- Replace one responder session. -/
def State.setResponder (s : State C) (j : ℕ) (y : ResponderSession C) : State C :=
  { s with responders := Function.update s.responders j (some y) }

/-- Run one initiator session, if there is one under this number. -/
def State.onInitiator (s : State C) (i : ℕ) (f : InitiatorSession C → InitiatorSession C) :
    State C :=
  match s.initiators i with
  | none => s
  | some x => s.setInitiator i (f x)

/-- Run one responder session, if there is one under this number. -/
def State.onResponder (s : State C) (j : ℕ)
    (f : ResponderSession C → ResponderSession C × List (RelayId × Bool)) : State C :=
  match s.responders j with
  | none => s
  | some y => { s.setResponder j (f y).1 with outcomes := s.outcomes ++ (f y).2 }

/-- One event.  A number that is taken starts no second session. -/
def step (s : State C) : Event ρ → State C
  | .initiate i config rng writeOk =>
    match s.initiators i, InitiatorSession.start config rng writeOk with
    | none, some x => s.setInitiator i x
    | _, _ => s
  | .listen j config =>
    match s.responders j with
    | none => s.setResponder j (.start config)
    | some _ => s
  | .deliverInit j msg rng writeOk => s.onResponder j fun y => (y.onInit msg rng writeOk, [])
  | .deliverResp i msg writeOk => s.onInitiator i fun x => x.onResp msg writeOk
  | .deliverConfirm j msg writeOk => s.onResponder j fun y => y.onConfirm msg writeOk
  | .deliverFinish i msg => s.onInitiator i fun x => x.onFinish msg
  | .abortInitiator i => s.onInitiator i fun x => x.abort
  | .abortResponder j => s.onResponder j fun y => (y.abort, [])

/-- One event after another. -/
def run (s : State C) (events : List (Event ρ)) : State C := events.foldl step s

/-- Some session has computed a MAC of this input. -/
def State.Macced (s : State C) (input : List UInt8) : Prop :=
  (∃ i x r, s.initiators i = some x ∧ x.Computed r ∧ r.input C = input) ∨
    ∃ j y r, s.responders j = some y ∧ y.Computed r ∧ r.input C = input

/-- The MACs a responder session compares with what it reads, in the order it tries them. -/
def ResponderSession.checks (y : ResponderSession C) : List MacRecord :=
  match y.phase, y.hello with
  | .awaitConfirm, some hello => y.config.candidates.map fun c => y.confirm hello c.1
  | _, _ => []

/-- The MAC an initiator session compares with what it reads. -/
def InitiatorSession.checks (x : InitiatorSession C) : List MacRecord :=
  match x.phase, x.resp with
  | .awaitFinish, some resp => [x.finish resp]
  | _, _ => []

variable (C) in
/-- The first of these MACs that has the bytes `msg`. -/
def macOf (macs : List MacRecord) (msg : List UInt8) : Option MacRecord :=
  macs.find? fun r => decide ((r.tag C).toList = msg)

/-- **MACs are ideal**: bytes that reach a session and are a MAC it compares them with are the
MAC of an input that some session has computed the MAC of.  The attacker knows no pre-shared
key, so it can deliver such bytes only by passing them on. -/
def Authentic (s : State C) : Event ρ → Prop
  | .deliverConfirm j msg _ =>
    ∀ y r, s.responders j = some y → macOf C y.checks msg = some r → s.Macced (r.input C)
  | .deliverFinish i msg =>
    ∀ x r, s.initiators i = some x → macOf C x.checks msg = some r → s.Macced (r.input C)
  | _ => True

/-! ## The invariant -/

/-- What holds of an initiator, given the inputs that have been MACed. -/
structure InitiatorOk (M : List UInt8 → Prop) (x : InitiatorSession C) : Prop where
  eph : x.init.ephPk = C.x25519.publicKey x.initSk
  completed : ∀ key, x.phase = .completed key → ∃ resp, x.resp = some resp ∧
    key = deriveLinkSessionKey C x.initSk resp.ephPk (.fromMessages x.init resp) ∧
    M ((x.finish resp).input C)
  pending : x.phase = .awaitResp → x.resp = none

/-- What holds of a responder. -/
structure ResponderOk (M : List UInt8 → Prop) (y : ResponderSession C) : Prop where
  eph : ∀ hello, y.hello = some hello → hello.resp.ephPk = C.x25519.publicKey hello.respSk
  accepted : ∀ psk key, y.accepted = some (psk, key) → ∃ hello matched, y.hello = some hello ∧
    (psk, matched) ∈ y.config.candidates ∧
    key = deriveLinkSessionKey C hello.respSk hello.init.ephPk hello.transcript ∧
    M ((y.confirm hello psk).input C)
  completed : ∀ key matched, y.phase = .completed key matched →
    ∃ psk, y.accepted = some (psk, key) ∧ (psk, matched) ∈ y.config.candidates
  pending : y.phase = .awaitInit ∨ y.phase = .awaitConfirm → y.accepted = none

/-- What holds in every state that is reached. -/
structure Inv (s : State C) : Prop where
  initiators : ∀ i x, s.initiators i = some x → InitiatorOk s.Macced x
  responders : ∀ j y, s.responders j = some y → ResponderOk s.Macced y

theorem InitiatorOk.mono {M M' : List UInt8 → Prop} (hM : ∀ m, M m → M' m)
    {x : InitiatorSession C} (h : InitiatorOk M x) : InitiatorOk M' x := by
  refine ⟨h.eph, fun key hkey => ?_, h.pending⟩
  obtain ⟨resp, hresp, hder, hmac⟩ := h.completed key hkey
  exact ⟨resp, hresp, hder, hM _ hmac⟩

theorem ResponderOk.mono {M M' : List UInt8 → Prop} (hM : ∀ m, M m → M' m)
    {y : ResponderSession C} (h : ResponderOk M y) : ResponderOk M' y := by
  refine ⟨h.eph, fun psk key hkey => ?_, h.completed, h.pending⟩
  obtain ⟨hello, matched, hhello, hcand, hder, hmac⟩ := h.accepted psk key hkey
  exact ⟨hello, matched, hhello, hcand, hder, hM _ hmac⟩

/-! ## What one read of a session can do -/

theorem helloWrite_ephPk (rng : ρ) :
    (helloWrite C rng).1.2.ephPk = C.x25519.publicKey (helloWrite C rng).1.1 := rfl

theorem InitiatorSession.start_cases {config : InitiatorConfig} {rng : ρ} {writeOk : Bool}
    {x : InitiatorSession C} (h : InitiatorSession.start config rng writeOk = some x) :
    x.init.ephPk = C.x25519.publicKey x.initSk ∧ x.resp = none ∧
      x.phase = if writeOk then .awaitResp else .failed := by
  rw [InitiatorSession.start, linkHandshakeInitWrite] at h
  simp only [parseLinkHandshakeInit, parseHello_toBytes, Option.some.injEq] at h
  subst h
  exact ⟨helloWrite_ephPk rng, rfl, rfl⟩

theorem InitiatorSession.onResp_cases (x : InitiatorSession C) (msg : List UInt8)
    (writeOk : Bool) :
    x.onResp msg writeOk = x ∨ x.onResp msg writeOk = { x with phase := .failed } ∨
      x.phase = .awaitResp ∧ ∃ resp, x.onResp msg writeOk =
        { x with resp := some resp, phase := if writeOk then .awaitFinish else .failed } := by
  rw [InitiatorSession.onResp]
  cases hphase : x.phase with
  | awaitResp =>
    cases parseLinkHandshakeResp msg with
    | error e => exact Or.inr (Or.inl rfl)
    | ok resp => exact Or.inr (Or.inr ⟨rfl, resp, rfl⟩)
  | _ => exact Or.inl rfl

/-- The bytes of a MAC message are the MAC. -/
theorem toList_of_parseLinkHandshakeMac {msg : List UInt8} {mac : Bytes linkHandshakeMacLen}
    (h : parseLinkHandshakeMac msg = .ok mac) : msg = mac.toList := by
  rw [parseLinkHandshakeMac] at h
  split at h
  · rw [← Except.ok.inj h, List.Vector.toList_mk]
  · cases h

/-- **The key that matches** is that of the first MAC with the bytes that were read. -/
theorem macOf_checks_of_matchPsk (y : ResponderSession C) (hello : ResponderHello C)
    (confirm : Bytes linkHandshakeMacLen) :
    macOf C (y.config.candidates.map fun c => y.confirm hello c.1) confirm.toList =
      (ResponderSession.matchPsk (C := C) y.config hello.transcript confirm).map fun c =>
        y.confirm hello c.1 := by
  have hcheck : ∀ c : Bytes 32 × Option RelayId,
      decide (((y.confirm hello c.1).tag C).toList = confirm.toList) =
        verifyLinkHandshakeConfirmMac C c.1 hello.transcript y.config.binding confirm := by
    intro c
    exact decide_eq_decide.mpr ⟨Bytes.ext_toList, congrArg List.Vector.toList⟩
  unfold macOf ResponderSession.matchPsk
  rw [List.find?_map]
  exact congrArg (Option.map _) (congrArg (List.find? · _) (funext hcheck))

theorem InitiatorSession.onFinish_cases (x : InitiatorSession C) (msg : List UInt8) :
    x.onFinish msg = x ∨ x.onFinish msg = { x with phase := .failed } ∨
      ∃ resp, x.resp = some resp ∧ macOf C x.checks msg = some (x.finish resp) ∧
        x.onFinish msg =
          { x with
            phase := .completed
              (deriveLinkSessionKey C x.initSk resp.ephPk (.fromMessages x.init resp)) } := by
  rw [InitiatorSession.onFinish, InitiatorSession.checks]
  cases hphase : x.phase with
  | awaitFinish =>
    cases hresp : x.resp with
    | none => exact Or.inl rfl
    | some resp =>
      cases hparse : parseLinkHandshakeMac msg with
      | error e => exact Or.inr (Or.inl rfl)
      | ok finish =>
        cases hver : verifyLinkHandshakeFinishMac C x.config.psk (.fromMessages x.init resp)
            x.config.binding finish with
        | false => exact Or.inr (Or.inl (by simp only [hver, if_true]))
        | true =>
          refine Or.inr (Or.inr ⟨resp, rfl, ?_, ?_⟩)
          · refine List.find?_cons_of_pos (decide_eq_true ?_)
            rw [toList_of_parseLinkHandshakeMac hparse]
            exact congrArg List.Vector.toList (of_decide_eq_true hver)
          · simp only [hver, Bool.true_eq_false, if_false]
  | _ => exact Or.inl rfl

theorem InitiatorSession.abort_cases (x : InitiatorSession C) :
    x.abort = x ∨ x.abort = { x with phase := .failed } := by
  rw [InitiatorSession.abort]
  cases x.phase with
  | completed key => exact Or.inl rfl
  | _ => exact Or.inr rfl

theorem ResponderSession.onInit_cases (y : ResponderSession C) (msg : List UInt8) (rng : ρ)
    (writeOk : Bool) :
    y.onInit msg rng writeOk = y ∨ y.onInit msg rng writeOk = { y with phase := .failed } ∨
      y.phase = .awaitInit ∧ ∃ hello : ResponderHello C,
        hello.resp.ephPk = C.x25519.publicKey hello.respSk ∧
        y.onInit msg rng writeOk =
          { y with
            hello := some hello
            phase := if writeOk then .awaitConfirm else .failed } := by
  rw [ResponderSession.onInit]
  cases hphase : y.phase with
  | awaitInit =>
    cases hparse : parseLinkHandshakeInit msg with
    | error e => exact Or.inr (Or.inl rfl)
    | ok init =>
      refine Or.inr (Or.inr ⟨rfl, ⟨init, (helloWrite C rng).1.1, (helloWrite C rng).1.2⟩,
        helloWrite_ephPk rng, ?_⟩)
      simp only [linkHandshakeRespWrite, parseLinkHandshakeResp, parseHello_toBytes]
  | _ => exact Or.inl rfl

theorem ResponderSession.onConfirm_cases (y : ResponderSession C) (msg : List UInt8)
    (writeOk : Bool) :
    (y.onConfirm msg writeOk).1 = y ∨ (y.onConfirm msg writeOk).1 = { y with phase := .failed } ∨
      y.phase = .awaitConfirm ∧ ∃ hello psk matched key, y.hello = some hello ∧
        (psk, matched) ∈ y.config.candidates ∧
        macOf C y.checks msg = some (y.confirm hello psk) ∧
        key = deriveLinkSessionKey C hello.respSk hello.init.ephPk hello.transcript ∧
        (y.onConfirm msg writeOk).1 =
          { y with
            accepted := some (psk, key)
            phase := if writeOk then .completed key matched else .failed } := by
  rw [ResponderSession.onConfirm, ResponderSession.checks]
  cases hphase : y.phase with
  | awaitConfirm =>
    cases hhello : y.hello with
    | none => exact Or.inl rfl
    | some hello =>
      cases hparse : parseLinkHandshakeMac msg with
      | error e => exact Or.inr (Or.inl rfl)
      | ok confirm =>
        cases hmatch : ResponderSession.matchPsk (C := C) y.config hello.transcript confirm with
        | none => exact Or.inr (Or.inl (by simp only [hmatch]))
        | some c =>
          obtain ⟨psk, matched⟩ := c
          have hver := List.find?_some hmatch
          have hmsg := toList_of_parseLinkHandshakeMac hparse
          have hfin : linkHandshakeResponderFinish C psk hello.respSk hello.init hello.resp
              confirm.toList y.config.binding =
              .ok (deriveLinkSessionKey C hello.respSk hello.init.ephPk hello.transcript) :=
            linkHandshakeResponderFinish_of_verified C _ hver
          refine Or.inr (Or.inr ⟨rfl, hello, psk, matched, _, rfl,
            List.mem_of_find?_eq_some hmatch, ?_, rfl, ?_⟩)
          · rw [hmsg, macOf_checks_of_matchPsk, hmatch]
            rfl
          · simp only [hmatch, hmsg, hfin]
            cases writeOk <;> rfl
  | _ => exact Or.inl rfl

theorem ResponderSession.abort_cases (y : ResponderSession C) :
    y.abort = y ∨ y.abort = { y with phase := .failed } := by
  rw [ResponderSession.abort]
  cases y.phase with
  | completed key matched => exact Or.inl rfl
  | _ => exact Or.inr rfl

/-! ## What one session preserves -/

section Sessions

variable {M : List UInt8 → Prop} {x : InitiatorSession C} {y : ResponderSession C}

theorem InitiatorOk.failed (h : InitiatorOk M x) : InitiatorOk M { x with phase := .failed } := by
  refine ⟨h.eph, ?_, ?_⟩
  · intro key hkey
    cases hkey
  · intro hphase
    cases hphase

theorem ResponderOk.failed (h : ResponderOk M y) : ResponderOk M { y with phase := .failed } := by
  refine ⟨h.eph, h.accepted, ?_, ?_⟩
  · intro key matched hkey
    cases hkey
  · rintro (hphase | hphase) <;> cases hphase

/-- An initiator keeps its invariant and the MACs it computed. -/
structure InitiatorKeeps (M : List UInt8 → Prop) (x x' : InitiatorSession C) : Prop where
  ok : InitiatorOk M x'
  computed : ∀ r, x.Computed r → x'.Computed r

/-- A responder keeps its invariant and the MACs it computed. -/
structure ResponderKeeps (M : List UInt8 → Prop) (y y' : ResponderSession C) : Prop where
  ok : ResponderOk M y'
  computed : ∀ r, y.Computed r → y'.Computed r

theorem InitiatorOk.start {config : InitiatorConfig} {rng : ρ} {writeOk : Bool}
    (h : InitiatorSession.start config rng writeOk = some x) : InitiatorOk M x := by
  obtain ⟨heph, hresp, hphase⟩ := InitiatorSession.start_cases h
  refine ⟨heph, fun key hkey => ?_, fun _ => hresp⟩
  rw [hphase] at hkey
  cases writeOk <;> cases hkey

theorem InitiatorOk.onResp (h : InitiatorOk M x) (msg : List UInt8) (writeOk : Bool) :
    InitiatorKeeps M x (x.onResp msg writeOk) := by
  rcases x.onResp_cases msg writeOk with heq | heq | ⟨hphase, resp, heq⟩ <;> rw [heq]
  · exact ⟨h, fun _ hr => hr⟩
  · exact ⟨h.failed, fun _ hr => hr⟩
  · refine ⟨⟨h.eph, fun key hkey => ?_, fun hwait => ?_⟩, ?_⟩
    · cases writeOk <;> cases hkey
    · cases writeOk <;> cases hwait
    · rintro r ⟨resp', hresp', -⟩
      rw [h.pending hphase] at hresp'
      cases hresp'

/-- **Reading a finish MAC**: the session completes only on a MAC it accepts. -/
theorem InitiatorOk.onFinish (h : InitiatorOk M x) (msg : List UInt8)
    (hauth : ∀ r, macOf C x.checks msg = some r → M (r.input C)) :
    InitiatorKeeps M x (x.onFinish msg) := by
  rcases x.onFinish_cases msg with heq | heq | ⟨resp, hresp, hacc, heq⟩ <;> rw [heq]
  · exact ⟨h, fun _ hr => hr⟩
  · exact ⟨h.failed, fun _ hr => hr⟩
  · refine ⟨⟨h.eph, fun key hkey => ?_, fun hwait => by cases hwait⟩, fun _ hr => hr⟩
    cases hkey
    exact ⟨resp, hresp, rfl, hauth _ hacc⟩

theorem InitiatorOk.abort (h : InitiatorOk M x) : InitiatorKeeps M x x.abort := by
  rcases x.abort_cases with heq | heq <;> rw [heq]
  · exact ⟨h, fun _ hr => hr⟩
  · exact ⟨h.failed, fun _ hr => hr⟩

theorem ResponderOk.start (config : ResponderConfig) :
    ResponderOk M (ResponderSession.start (C := C) config) := by
  refine ⟨?_, ?_, ?_, fun _ => rfl⟩
  · intro hello hhello
    cases hhello
  · intro psk key hacc
    cases hacc
  · intro key matched hkey
    rw [ResponderSession.start] at hkey
    simp only at hkey
    split_ifs at hkey

theorem ResponderOk.onInit (h : ResponderOk M y) (msg : List UInt8) (rng : ρ) (writeOk : Bool) :
    ResponderKeeps M y (y.onInit msg rng writeOk) := by
  rcases y.onInit_cases msg rng writeOk with heq | heq | ⟨hphase, hello, heph, heq⟩ <;> rw [heq]
  · exact ⟨h, fun _ hr => hr⟩
  · exact ⟨h.failed, fun _ hr => hr⟩
  · have hnone := h.pending (Or.inl hphase)
    refine ⟨⟨?_, fun psk key hacc => ?_, fun key matched hkey => ?_, fun _ => hnone⟩, ?_⟩
    · rintro hello' hhello
      cases hhello
      exact heph
    · rw [hnone] at hacc
      cases hacc
    · cases writeOk <;> cases hkey
    · rintro r ⟨_, psk, key, -, hacc, -⟩
      rw [hnone] at hacc
      cases hacc

/-- **Reading a confirm MAC**: the session accepts a pre-shared key only on a MAC it
accepts. -/
theorem ResponderOk.onConfirm (h : ResponderOk M y) (msg : List UInt8) (writeOk : Bool)
    (hauth : ∀ r, macOf C y.checks msg = some r → M (r.input C)) :
    ResponderKeeps M y (y.onConfirm msg writeOk).1 := by
  rcases y.onConfirm_cases msg writeOk with
    heq | heq | ⟨hphase, hello, psk, matched, key, hhello, hcand, hacc, hkey, heq⟩ <;> rw [heq]
  · exact ⟨h, fun _ hr => hr⟩
  · exact ⟨h.failed, fun _ hr => hr⟩
  · have hnone := h.pending (Or.inr hphase)
    refine ⟨⟨h.eph, ?_, ?_, ?_⟩, ?_⟩
    · intro psk' key' hacc'
      cases hacc'
      exact ⟨hello, matched, hhello, hcand, hkey, hauth _ hacc⟩
    · intro key' matched' hphase'
      cases writeOk <;> cases hphase'
      exact ⟨psk, rfl, hcand⟩
    · intro hphase'
      cases writeOk <;> rcases hphase' with h | h <;> cases h
    · rintro r ⟨_, psk', key', -, hacc', -⟩
      rw [hnone] at hacc'
      cases hacc'

theorem ResponderOk.abort (h : ResponderOk M y) : ResponderKeeps M y y.abort := by
  rcases y.abort_cases with heq | heq <;> rw [heq]
  · exact ⟨h, fun _ hr => hr⟩
  · exact ⟨h.failed, fun _ hr => hr⟩

end Sessions

/-! ## What one event preserves -/

section Steps

variable {s : State C}

theorem macced_setInitiator {i : ℕ} {x' : InitiatorSession C}
    (h : ∀ x r, s.initiators i = some x → x.Computed r → x'.Computed r) {m : List UInt8}
    (hm : s.Macced m) : (s.setInitiator i x').Macced m := by
  rcases hm with ⟨k, x, r, hx, hr, rfl⟩ | hresp
  · left
    by_cases hk : k = i
    · subst hk
      exact ⟨k, x', r, Function.update_self .., h x r hx hr, rfl⟩
    · exact ⟨k, x, r, (Function.update_of_ne hk _ _).trans hx, hr, rfl⟩
  · exact Or.inr hresp

theorem macced_setResponder {j : ℕ} {y' : ResponderSession C}
    (h : ∀ y r, s.responders j = some y → y.Computed r → y'.Computed r) {m : List UInt8}
    (hm : s.Macced m) : (s.setResponder j y').Macced m := by
  rcases hm with hinit | ⟨k, y, r, hy, hr, rfl⟩
  · exact Or.inl hinit
  · right
    by_cases hk : k = j
    · subst hk
      exact ⟨k, y', r, Function.update_self .., h y r hy hr, rfl⟩
    · exact ⟨k, y, r, (Function.update_of_ne hk _ _).trans hy, hr, rfl⟩

theorem Inv.setInitiator (h : Inv s) {i : ℕ} {x' : InitiatorSession C}
    (hkeep : ∀ x r, s.initiators i = some x → x.Computed r → x'.Computed r)
    (hok : InitiatorOk s.Macced x') : Inv (s.setInitiator i x') := by
  have hmono : ∀ m, s.Macced m → (s.setInitiator i x').Macced m :=
    fun _ => macced_setInitiator hkeep
  refine ⟨fun k x hx => ?_, fun j y hy => (h.responders j y hy).mono hmono⟩
  by_cases hk : k = i
  · subst hk
    have hx' : some x' = some x := by simpa [State.setInitiator] using hx
    cases hx'
    exact hok.mono hmono
  · exact (h.initiators k x ((Function.update_of_ne hk _ _).symm.trans hx)).mono hmono

theorem Inv.setResponder (h : Inv s) {j : ℕ} {y' : ResponderSession C}
    (hkeep : ∀ y r, s.responders j = some y → y.Computed r → y'.Computed r)
    (hok : ResponderOk s.Macced y') : Inv (s.setResponder j y') := by
  have hmono : ∀ m, s.Macced m → (s.setResponder j y').Macced m :=
    fun _ => macced_setResponder hkeep
  refine ⟨fun i x hx => (h.initiators i x hx).mono hmono, fun k y hy => ?_⟩
  by_cases hk : k = j
  · subst hk
    have hy' : some y' = some y := by simpa [State.setResponder] using hy
    cases hy'
    exact hok.mono hmono
  · exact (h.responders k y ((Function.update_of_ne hk _ _).symm.trans hy)).mono hmono

/-- What is recorded in the tracker is of no concern to the sessions. -/
theorem Inv.outcomes (h : Inv s) (outcomes : List (RelayId × Bool)) :
    Inv { s with outcomes := outcomes } :=
  ⟨h.initiators, h.responders⟩

/-- What an event comes to: nothing, or another session in the place of one, which keeps what
that one computed. -/
inductive Outcome (s : State C) : State C → Prop
  | same : Outcome s s
  | initiator (i : ℕ) (x' : InitiatorSession C)
      (hkeep : ∀ x r, s.initiators i = some x → x.Computed r → x'.Computed r)
      (hok : InitiatorOk s.Macced x') : Outcome s (s.setInitiator i x')
  | responder (j : ℕ) (y' : ResponderSession C) (outcomes : List (RelayId × Bool))
      (hkeep : ∀ y r, s.responders j = some y → y.Computed r → y'.Computed r)
      (hok : ResponderOk s.Macced y') :
      Outcome s { s.setResponder j y' with outcomes := outcomes }

theorem Outcome.onInitiator (i : ℕ) {f : InitiatorSession C → InitiatorSession C}
    (hf : ∀ x, s.initiators i = some x → InitiatorKeeps s.Macced x (f x)) :
    Outcome s (s.onInitiator i f) := by
  rw [State.onInitiator]
  cases hx : s.initiators i with
  | none => exact .same
  | some x =>
    refine .initiator i (f x) (fun x₀ r hx₀ hr => ?_) (hf x hx).ok
    rw [hx] at hx₀
    cases hx₀
    exact (hf x hx).computed r hr

theorem Outcome.onResponder (j : ℕ)
    {f : ResponderSession C → ResponderSession C × List (RelayId × Bool)}
    (hf : ∀ y, s.responders j = some y → ResponderKeeps s.Macced y (f y).1) :
    Outcome s (s.onResponder j f) := by
  rw [State.onResponder]
  cases hy : s.responders j with
  | none => exact .same
  | some y =>
    refine .responder j (f y).1 _ (fun y₀ r hy₀ hr => ?_) (hf y hy).ok
    rw [hy] at hy₀
    cases hy₀
    exact (hf y hy).computed r hr

/-- **What one event comes to**, if what it makes a session accept is authentic. -/
theorem Inv.outcome (h : Inv s) (e : Event ρ) (hauth : Authentic s e) :
    Outcome s (Handshake.step s e) := by
  cases e with
  | initiate i config rng writeOk =>
    rw [Handshake.step]
    cases hx : s.initiators i with
    | some x => exact .same
    | none =>
      cases hstart : InitiatorSession.start (C := C) config rng writeOk with
      | none => exact .same
      | some x =>
        refine .initiator i x (fun x₀ r hx₀ => ?_) (InitiatorOk.start hstart)
        rw [hx] at hx₀
        cases hx₀
  | listen j config =>
    rw [Handshake.step]
    cases hy : s.responders j with
    | some y => exact .same
    | none =>
      refine .responder j _ s.outcomes (fun y₀ r hy₀ => ?_) (ResponderOk.start config)
      rw [hy] at hy₀
      cases hy₀
  | deliverInit j msg rng writeOk =>
    exact .onResponder j fun y hy => (h.responders j y hy).onInit msg rng writeOk
  | deliverResp i msg writeOk =>
    exact .onInitiator i fun x hx => (h.initiators i x hx).onResp msg writeOk
  | deliverConfirm j msg writeOk =>
    exact .onResponder j fun y hy =>
      (h.responders j y hy).onConfirm msg writeOk fun r => hauth y r hy
  | deliverFinish i msg =>
    exact .onInitiator i fun x hx =>
      (h.initiators i x hx).onFinish msg fun r => hauth x r hx
  | abortInitiator i => exact .onInitiator i fun x hx => (h.initiators i x hx).abort
  | abortResponder j => exact .onResponder j fun y hy => (h.responders j y hy).abort

/-- **One event keeps the invariant.** -/
theorem Inv.step (h : Inv s) (e : Event ρ) (hauth : Authentic s e) :
    Inv (Handshake.step s e) := by
  have houtcome := h.outcome e hauth
  generalize Handshake.step s e = s' at houtcome ⊢
  cases houtcome with
  | same => exact h
  | initiator i x' hkeep hok => exact h.setInitiator hkeep hok
  | responder j y' outcomes hkeep hok => exact (h.setResponder hkeep hok).outcomes outcomes

/-- **What has been MACed stays MACed.** -/
theorem Inv.macced_step (h : Inv s) (e : Event ρ) (hauth : Authentic s e) {m : List UInt8}
    (hm : s.Macced m) : (Handshake.step s e).Macced m := by
  have houtcome := h.outcome e hauth
  generalize Handshake.step s e = s' at houtcome ⊢
  cases houtcome with
  | same => exact hm
  | initiator i x' hkeep hok => exact macced_setInitiator hkeep hm
  | responder j y' outcomes hkeep hok => exact macced_setResponder hkeep hm

/-- Nor does a run change that. -/
theorem Inv.macced_run (h : Inv s) {events : List (Event ρ)}
    (hideal : Run.Guarded Handshake.step Authentic s events) {m : List UInt8} (hm : s.Macced m) :
    (Handshake.run s events).Macced m :=
  (hideal.preserves (fun s => Inv s ∧ s.Macced m)
    (fun _ e hauth h => ⟨h.1.step e hauth, h.1.macced_step e hauth h.2⟩) ⟨h, hm⟩).2

theorem inv_initial : Inv (State.initial C) :=
  ⟨fun _ _ h => (nomatch h), fun _ _ h => (nomatch h)⟩

/-- **Every run keeps it.** -/
theorem inv_run {events : List (Event ρ)}
    (hideal : Run.Guarded Handshake.step Authentic (State.initial C) events) :
    Inv (run (State.initial C) events) :=
  hideal.preserves Inv (fun _ e hauth h => h.step e hauth) inv_initial

end Steps

end Handshake

end Aegis
