import Aegis.Relay.HandshakeInvariant

/-!
# Agreement of the link handshake

* `Inv.agreement_initiator`, `Inv.agreement_responder` — the session that computed
  the MAC a session accepted has the same transcript, binding and session key.
* `finish_ne_confirm`, `Inv.confirm_ne_finish` — bytes that are accepted as a MAC of one role
  are none of the other.
* `run_honestEvents` — with nobody in the way both sides complete, with one key.
* `link_handshake_agreement` — **agreement for every run.**
-/

namespace Aegis

open Buffer

namespace Handshake

variable {ρ : Type} {C : Suite ρ}

/-! ## Agreement of one state -/

/-- Some session of the run holds this pre-shared key. -/
def State.Holds (s : State C) (psk : Bytes 32) : Prop :=
  (∃ i x, s.initiators i = some x ∧ x.config.psk = psk) ∨
    ∃ j y matched, s.responders j = some y ∧ (psk, matched) ∈ y.config.candidates

/-- The keys derived for authentication differ where the pre-shared keys do. -/
def State.AuthKeysDistinct (s : State C) : Prop :=
  ∀ p q, s.Holds p → s.Holds q → handshakeAuthKey C p = handshakeAuthKey C q → p = q

/-- No two of the inputs MACed have the same MAC. -/
def State.CollisionFree (s : State C) : Prop :=
  ∀ m m', s.Macced m → s.Macced m' → C.sha3 m = C.sha3 m' → m = m'

section Agreement

variable {s : State C}

/-- The initiator's binding names the relay and the commitment it intended. -/
theorem linkHandshakeBinding_injective {id id' : RelayId} {c c' : Option (Bytes 32)} {on : Bool}
    (h : linkHandshakeBinding true id c = linkHandshakeBinding on id' c') :
    on = true ∧ id = id' ∧ c = c' := by
  cases on with
  | false => cases h
  | true =>
    cases h
    exact ⟨rfl, rfl, rfl⟩

theorem roles_distinct : roleInitiator ≠ roleResponder := by decide

/-- **A completed initiator has a responder** that accepted the same pre-shared key for
the same transcript, binding and session key. -/
theorem Inv.agreement_initiator (h : Inv s)
    (hdh : ∀ a b, C.x25519.diffieHellman a (C.x25519.publicKey b) =
      C.x25519.diffieHellman b (C.x25519.publicKey a))
    (hkeys : s.AuthKeysDistinct) {i : ℕ} {x : InitiatorSession C} {key : LinkKey}
    (hx : s.initiators i = some x) (hdone : x.phase = .completed key) :
    ∃ resp j y hello, x.resp = some resp ∧ s.responders j = some y ∧ y.hello = some hello ∧
      y.accepted = some (x.config.psk, key) ∧
      (∃ matched, (x.config.psk, matched) ∈ y.config.candidates) ∧
      hello.transcript = .fromMessages x.init resp ∧ y.config.binding = x.config.binding := by
  have hxok := h.initiators i x hx
  obtain ⟨resp, hresp, hkey, hmac⟩ := hxok.completed key hdone
  refine ⟨resp, ?_⟩
  rcases hmac with ⟨k, x', r, hx', ⟨resp', -, rfl⟩, hinput⟩ | ⟨j, y, r, hy, hcomp, hinput⟩
  · -- an initiator only computes MACs of its own role
    obtain ⟨-, hrole, -⟩ := macInput_injective hinput
    exact (roles_distinct hrole).elim
  · obtain ⟨hello, psk, key', hhello, hacc, rfl⟩ := hcomp
    have hyok := h.responders j y hy
    obtain ⟨hauth, -, htrans, hbind⟩ := macInput_injective hinput
    obtain ⟨hello', matched, hhello', hcand, hkey', -⟩ := hyok.accepted psk key' hacc
    rw [hhello] at hhello'
    cases hhello'
    have hpsk : psk = x.config.psk :=
      hkeys _ _ (Or.inr ⟨j, y, matched, hy, hcand⟩) (Or.inl ⟨i, x, hx, rfl⟩) hauth
    have htranscript : hello.transcript = .fromMessages x.init resp := htrans
    obtain ⟨hinit, -, hrespEq, -⟩ := LinkHandshakeTranscript.mk.inj htranscript
    have hsame : key' = key := by
      rw [hkey', hkey, htranscript, deriveLinkSessionKey, deriveLinkSessionKey, hinit, ← hrespEq,
        hyok.eph hello hhello, hxok.eph, hdh]
    exact ⟨j, y, hello, hresp, hy, hhello, by rw [hacc, hpsk, hsame], ⟨matched, hpsk ▸ hcand⟩,
      htranscript, hbind⟩

/-- **A responder that accepted has an initiator** that computed its confirm MAC for the
same transcript and binding, and whose session key is the same. -/
theorem Inv.agreement_responder (h : Inv s)
    (hdh : ∀ a b, C.x25519.diffieHellman a (C.x25519.publicKey b) =
      C.x25519.diffieHellman b (C.x25519.publicKey a))
    (hkeys : s.AuthKeysDistinct) {j : ℕ} {y : ResponderSession C} {psk : Bytes 32} {key : LinkKey}
    (hy : s.responders j = some y) (hacc : y.accepted = some (psk, key)) :
    ∃ hello i x resp, y.hello = some hello ∧ s.initiators i = some x ∧ x.resp = some resp ∧
      x.config.psk = psk ∧ hello.transcript = .fromMessages x.init resp ∧
      x.config.binding = y.config.binding ∧
      key = deriveLinkSessionKey C x.initSk resp.ephPk (.fromMessages x.init resp) := by
  have hyok := h.responders j y hy
  obtain ⟨hello, matched, hhello, hcand, hkey, hmac⟩ := hyok.accepted psk key hacc
  refine ⟨hello, ?_⟩
  rcases hmac with ⟨i, x, r, hx, ⟨resp, hresp, rfl⟩, hinput⟩ | ⟨k, y', r, hy', hcomp, hinput⟩
  · have hxok := h.initiators i x hx
    obtain ⟨hauth, -, htrans, hbind⟩ := macInput_injective hinput
    have hpsk : x.config.psk = psk :=
      hkeys _ _ (Or.inl ⟨i, x, hx, rfl⟩) (Or.inr ⟨j, y, matched, hy, hcand⟩) hauth
    have htranscript : hello.transcript = .fromMessages x.init resp := htrans.symm
    obtain ⟨hinit, -, hrespEq, -⟩ := LinkHandshakeTranscript.mk.inj htranscript
    refine ⟨i, x, resp, hhello, hx, hresp, hpsk, htranscript, hbind, ?_⟩
    rw [hkey, htranscript, deriveLinkSessionKey, deriveLinkSessionKey, hinit, ← hrespEq,
      hyok.eph hello hhello, hxok.eph, hdh]
  · -- a responder only computes MACs of its own role
    obtain ⟨_, _, _, -, -, rfl⟩ := hcomp
    obtain ⟨-, hrole, -⟩ := macInput_injective hinput
    exact (roles_distinct hrole.symm).elim

/-- The bytes that complete an initiator are the finish MAC it checks, and those of no MAC that an
initiator has computed. -/
theorem finish_ne_confirm {t : State C} (hfree : t.CollisionFree)
    (hlater : ∀ m, s.Macced m → t.Macced m) {i : ℕ} {msg : List UInt8}
    (hauth : Authentic s (.deliverFinish i msg)) {x : InitiatorSession C} {key : LinkKey}
    (hx : s.initiators i = some x) (hwait : x.phase = .awaitFinish)
    (hdone : (x.onFinish msg).phase = .completed key) :
    ∃ resp, x.resp = some resp ∧ msg = ((x.finish resp).tag C).toList ∧
      ∀ k x' resp', t.initiators k = some x' → x'.resp = some resp' →
        msg ≠ ((x'.confirm resp').tag C).toList := by
  rcases x.onFinish_cases msg with heq | heq | ⟨resp, hresp, hmac, heq⟩
  · rw [heq, hwait] at hdone
    cases hdone
  · rw [heq] at hdone
    cases hdone
  · have hmsg : ((x.finish resp).tag C).toList = msg := by simpa using List.find?_some hmac
    refine ⟨resp, hresp, hmsg.symm, fun k x' resp' hx' hresp' hconfirm => ?_⟩
    have hmac' : t.Macced ((x'.confirm resp').input C) :=
      Or.inl ⟨k, x', _, hx', ⟨resp', hresp', rfl⟩, rfl⟩
    have htag := Bytes.ext_toList (hmsg.trans hconfirm)
    obtain ⟨-, hrole, -⟩ :=
      macInput_injective (hfree _ _ (hlater _ (hauth x _ hx hmac)) hmac' htag)
    exact roles_distinct hrole.symm

/-- The bytes a responder accepts are a confirm MAC it checks, and those of no MAC that a
responder has computed. -/
theorem Inv.confirm_ne_finish (h : Inv s) {t : State C} (hfree : t.CollisionFree)
    (hlater : ∀ m, s.Macced m → t.Macced m) {j : ℕ} {msg : List UInt8} {writeOk : Bool}
    (hauth : Authentic s (.deliverConfirm j msg writeOk)) {y : ResponderSession C}
    {psk : Bytes 32} {key : LinkKey} (hy : s.responders j = some y)
    (hwait : y.phase = .awaitConfirm)
    (hacc : (y.onConfirm msg writeOk).1.accepted = some (psk, key)) :
    ∃ hello, y.hello = some hello ∧ msg = ((y.confirm hello psk).tag C).toList ∧
      ∀ k y' hello' psk' key', t.responders k = some y' → y'.hello = some hello' →
        y'.accepted = some (psk', key') → msg ≠ ((y'.finish hello' psk').tag C).toList := by
  have hnone := (h.responders j y hy).pending (Or.inr hwait)
  rcases y.onConfirm_cases msg writeOk with
    heq | heq | ⟨-, hello, psk₀, matched, key₀, hhello, hcand, hmac, hkey, heq⟩
  · rw [heq, hnone] at hacc
    cases hacc
  · rw [heq] at hacc
    change y.accepted = _ at hacc
    rw [hnone] at hacc
    cases hacc
  · rw [heq] at hacc
    obtain ⟨rfl, rfl⟩ := Prod.mk.inj (Option.some.inj hacc)
    have hmsg : ((y.confirm hello psk₀).tag C).toList = msg := by
      simpa using List.find?_some hmac
    refine ⟨hello, hhello, hmsg.symm, fun k y' hello' psk' key' hy' hhello' hacc' hfinish => ?_⟩
    have hmac' : t.Macced ((y'.finish hello' psk').input C) :=
      Or.inr ⟨k, y', _, hy', ⟨hello', psk', key', hhello', hacc', rfl⟩, rfl⟩
    have htag := Bytes.ext_toList (hmsg.trans hfinish)
    obtain ⟨-, hrole, -⟩ :=
      macInput_injective (hfree _ _ (hlater _ (hauth y _ hy hmac)) hmac' htag)
    exact roles_distinct hrole

end Agreement

/-! ## The honest run -/

/-- One session on each side. -/
def State.pair (x : InitiatorSession C) (y : ResponderSession C)
    (outcomes : List (RelayId × Bool)) : State C :=
  ⟨fun i => if i = 0 then some x else none, fun j => if j = 0 then some y else none, outcomes⟩

section Honest

variable (C) (a : InitiatorConfig) (b : ResponderConfig) (ra rb : ρ)

/-- The first message, when everything goes as it should. -/
def honestInit : LinkHandshakeInit := (helloWrite C ra).1.2

/-- The second message. -/
def honestResp : LinkHandshakeResp := (helloWrite C rb).1.2

/-- The session key. -/
def honestKey : LinkKey :=
  deriveLinkSessionKey C (helloWrite C ra).1.1 (honestResp C rb).ephPk
    (.fromMessages (honestInit C ra) (honestResp C rb))

/-- The initiator, in any phase after its confirm MAC. -/
def honestInitiator (phase : InitiatorPhase) : InitiatorSession C :=
  ⟨a, (helloWrite C ra).1.1, honestInit C ra, some (honestResp C rb), phase⟩

/-- What the responder holds after the first message. -/
def honestHello : ResponderHello C :=
  ⟨honestInit C ra, (helloWrite C rb).1.1, honestResp C rb⟩

/-- The responder, in any phase after its response. -/
def honestResponder (accepted : Option (Bytes 32 × LinkKey)) (phase : ResponderPhase) :
    ResponderSession C :=
  ⟨b, some (honestHello C ra rb), accepted, phase⟩

/-- The initiator's MAC. -/
def honestConfirm : Bytes linkHandshakeMacLen :=
  linkHandshakeConfirmMac C a.psk (honestHello C ra rb).transcript a.binding

/-- The responder's MAC. -/
def honestFinish : Bytes linkHandshakeMacLen :=
  linkHandshakeFinishMac C a.psk (honestHello C ra rb).transcript a.binding

/-- Both sides start, and every message is passed on as it is. -/
def honestEvents : List (Event ρ) :=
  [.listen 0 b, .initiate 0 a ra true, .deliverInit 0 (honestInit C ra).toBytes rb true,
    .deliverResp 0 (honestResp C rb).toBytes true,
    .deliverConfirm 0 (honestConfirm C a ra rb).toList true,
    .deliverFinish 0 (honestFinish C a ra rb).toList]

variable {C a b ra rb}

theorem step_pair_initiator (x : InitiatorSession C) (y : ResponderSession C)
    (outcomes : List (RelayId × Bool)) (f : InitiatorSession C → InitiatorSession C) :
    (State.pair x y outcomes).onInitiator 0 f = .pair (f x) y outcomes := by
  simp only [State.pair, State.onInitiator, State.setInitiator, if_true, State.mk.injEq, and_true]
  funext i
  by_cases hi : i = 0
  · rw [hi, Function.update_self, if_pos rfl]
  · rw [Function.update_of_ne hi, if_neg hi, if_neg hi]

theorem step_pair_responder (x : InitiatorSession C) (y : ResponderSession C)
    (outcomes : List (RelayId × Bool))
    (f : ResponderSession C → ResponderSession C × List (RelayId × Bool)) :
    (State.pair x y outcomes).onResponder 0 f = .pair x (f y).1 (outcomes ++ (f y).2) := by
  simp only [State.pair, State.onResponder, State.setResponder, if_true, State.mk.injEq, and_true,
    true_and]
  funext j
  by_cases hj : j = 0
  · rw [hj, Function.update_self, if_pos rfl]
  · rw [Function.update_of_ne hj, if_neg hj, if_neg hj]

theorem run_start : run (State.initial C) [.listen 0 b, .initiate 0 a ra true] =
    .pair ⟨a, (helloWrite C ra).1.1, honestInit C ra, none, .awaitResp⟩ (.start b) [] := by
  have hstart : InitiatorSession.start a ra true =
      some (⟨a, (helloWrite C ra).1.1, honestInit C ra, none, .awaitResp⟩ :
        InitiatorSession C) := by
    simp only [InitiatorSession.start, linkHandshakeInitWrite, parseLinkHandshakeInit,
      parseHello_toBytes, if_true]
    rfl
  simp only [run, List.foldl_cons, List.foldl_nil, step, State.initial, State.setResponder, hstart,
    State.setInitiator, State.pair, State.mk.injEq, and_true]
  constructor
  · funext i
    by_cases hi : i = 0
    · rw [hi, Function.update_self, if_pos rfl]
    · rw [Function.update_of_ne hi, if_neg hi]
  · funext j
    by_cases hj : j = 0
    · rw [hj, Function.update_self, if_pos rfl]
    · rw [Function.update_of_ne hj, if_neg hj]

theorem onInit_honest (hstart : (ResponderSession.start (C := C) b).phase = .awaitInit) :
    (ResponderSession.start (C := C) b).onInit (honestInit C ra).toBytes rb true =
      honestResponder C b ra rb none .awaitConfirm := by
  simp only [ResponderSession.onInit, hstart, parseLinkHandshakeInit, linkHandshakeRespWrite,
    parseLinkHandshakeResp, parseHello_toBytes, if_true]
  rfl

theorem onResp_honest :
    (⟨a, (helloWrite C ra).1.1, honestInit C ra, none, .awaitResp⟩ : InitiatorSession C).onResp
      (honestResp C rb).toBytes true = honestInitiator C a ra rb .awaitFinish := by
  simp only [InitiatorSession.onResp, parseLinkHandshakeResp, parseHello_toBytes, if_true]
  rfl

/-- The responder's pre-shared keys match the confirm MAC at the initiator's. -/
def HonestMatch (C : Suite ρ) (a : InitiatorConfig) (b : ResponderConfig) (ra rb : ρ)
    (matched : Option RelayId) : Prop :=
  ResponderSession.matchPsk (C := C) b (honestHello C ra rb).transcript
    (honestConfirm C a ra rb) = some (a.psk, matched)

theorem verify_honestConfirm : verifyLinkHandshakeConfirmMac C a.psk
    (honestHello C ra rb).transcript a.binding (honestConfirm C a ra rb) = true :=
  decide_eq_true rfl

/-- It does if it is the only one. -/
theorem honestMatch_of_candidates {matched : Option RelayId} (hbind : b.binding = a.binding)
    (hcand : b.candidates = [(a.psk, matched)]) : HonestMatch C a b ra rb matched := by
  rw [HonestMatch, ResponderSession.matchPsk, hcand, hbind]
  exact List.find?_cons_of_pos verify_honestConfirm

theorem onConfirm_honest {matched : Option RelayId} (hbind : b.binding = a.binding)
    (hdh : ∀ a b, C.x25519.diffieHellman a (C.x25519.publicKey b) =
      C.x25519.diffieHellman b (C.x25519.publicKey a))
    (hmatch : HonestMatch C a b ra rb matched) :
    (honestResponder C b ra rb none .awaitConfirm).onConfirm (honestConfirm C a ra rb).toList
      true =
      (honestResponder C b ra rb (some (a.psk, honestKey C ra rb))
        (.completed (honestKey C ra rb) matched), ResponderSession.recordOutcome matched true) := by
  have hver : verifyLinkHandshakeConfirmMac C a.psk
      (.fromMessages (honestHello C ra rb).init (honestHello C ra rb).resp) b.binding
      (honestConfirm C a ra rb) = true := by
    rw [hbind]
    exact verify_honestConfirm
  have hkey : deriveLinkSessionKey C (honestHello C ra rb).respSk (honestHello C ra rb).init.ephPk
      (.fromMessages (honestHello C ra rb).init (honestHello C ra rb).resp) =
      honestKey C ra rb := by
    simp only [deriveLinkSessionKey, honestKey, honestHello, honestInit, honestResp,
      helloWrite_ephPk]
    rw [hdh]
  have hfin := linkHandshakeResponderFinish_of_verified C (honestHello C ra rb).respSk hver
  rw [hkey] at hfin
  rw [HonestMatch] at hmatch
  simp only [ResponderSession.onConfirm, honestResponder, parseLinkHandshakeMac_toList, hmatch,
    hfin, if_true]

theorem verify_honestFinish : verifyLinkHandshakeFinishMac C a.psk
    (.fromMessages (honestInit C ra) (honestResp C rb)) a.binding (honestFinish C a ra rb) = true :=
  decide_eq_true rfl

theorem onFinish_honest :
    (honestInitiator C a ra rb .awaitFinish).onFinish (honestFinish C a ra rb).toList =
      honestInitiator C a ra rb (.completed (honestKey C ra rb)) := by
  simp only [InitiatorSession.onFinish, honestInitiator, parseLinkHandshakeMac_toList,
    verify_honestFinish, Bool.true_eq_false, if_false]
  rfl

/-- **With nobody in the way both sides complete**, with the same key. -/
theorem run_honestEvents {matched : Option RelayId}
    (hstart : (ResponderSession.start (C := C) b).phase = .awaitInit)
    (hbind : b.binding = a.binding)
    (hdh : ∀ a b, C.x25519.diffieHellman a (C.x25519.publicKey b) =
      C.x25519.diffieHellman b (C.x25519.publicKey a))
    (hmatch : HonestMatch C a b ra rb matched) :
    run (State.initial C) (honestEvents C a b ra rb) =
      .pair (honestInitiator C a ra rb (.completed (honestKey C ra rb)))
        (honestResponder C b ra rb (some (a.psk, honestKey C ra rb))
          (.completed (honestKey C ra rb) matched))
        (ResponderSession.recordOutcome matched true) := by
  have hsplit : honestEvents C a b ra rb = [.listen 0 b, .initiate 0 a ra true] ++
      (honestEvents C a b ra rb).drop 2 := rfl
  rw [run, hsplit, List.foldl_append]
  change List.foldl step (run _ _) _ = _
  rw [run_start]
  simp only [honestEvents, List.drop_succ_cons, List.drop_zero, List.foldl_cons, List.foldl_nil,
    step, step_pair_initiator, step_pair_responder, onInit_honest hstart, onResp_honest,
    onConfirm_honest hbind hdh hmatch, onFinish_honest, List.append_nil, List.nil_append]

/-- Nothing in the honest run is a forgery. -/
theorem guarded_honestEvents {matched : Option RelayId}
    (hstart : (ResponderSession.start (C := C) b).phase = .awaitInit)
    (hbind : b.binding = a.binding)
    (hdh : ∀ a b, C.x25519.diffieHellman a (C.x25519.publicKey b) =
      C.x25519.diffieHellman b (C.x25519.publicKey a))
    (hmatch : HonestMatch C a b ra rb matched) :
    Run.Guarded step Authentic (State.initial C) (honestEvents C a b ra rb) := by
  have hsplit : honestEvents C a b ra rb = [.listen 0 b, .initiate 0 a ra true] ++
      (honestEvents C a b ra rb).drop 2 := rfl
  rw [hsplit, Run.guarded_append]
  refine ⟨⟨trivial, trivial, trivial⟩, ?_⟩
  change Run.Guarded step Authentic (run _ _) _
  rw [run_start]
  simp only [honestEvents, List.drop_succ_cons, List.drop_zero, Run.Guarded, step,
    step_pair_initiator, step_pair_responder, onInit_honest hstart, onResp_honest,
    onConfirm_honest hbind hdh hmatch]
  refine ⟨trivial, trivial, ?_, ?_, trivial⟩
  · rintro y r hy hacc
    cases hy
    have hfirst := macOf_checks_of_matchPsk (honestResponder C b ra rb none .awaitConfirm)
      (honestHello C ra rb) (honestConfirm C a ra rb)
    have hsame : ResponderSession.matchPsk (C := C) (honestResponder C b ra rb none
        .awaitConfirm).config (honestHello C ra rb).transcript (honestConfirm C a ra rb) =
        some (a.psk, matched) := hmatch
    rw [hsame] at hfirst
    obtain rfl := Option.some.inj (hfirst.symm.trans hacc)
    refine Or.inl ⟨0, _, _, rfl, ⟨honestResp C rb, rfl, rfl⟩, ?_⟩
    exact congrArg (macInput _ _ _) hbind.symm
  · rintro x r hx hacc
    cases hx
    have hfirst : macOf C (honestInitiator C a ra rb .awaitFinish).checks
        (honestFinish C a ra rb).toList =
        some ((honestInitiator C a ra rb .awaitFinish).finish (honestResp C rb)) :=
      List.find?_cons_of_pos (decide_eq_true rfl)
    obtain rfl := Option.some.inj (hfirst.symm.trans hacc)
    refine Or.inr ⟨0, _, _, rfl, ⟨honestHello C ra rb, a.psk, honestKey C ra rb, rfl, rfl, rfl⟩, ?_⟩
    exact congrArg (macInput _ _ _) hbind

/-- The honest run MACs two inputs. -/
theorem macced_honest {key : LinkKey} {phase : InitiatorPhase} {phase' : ResponderPhase}
    {outcomes : List (RelayId × Bool)} {m : List UInt8} (hbind : b.binding = a.binding)
    (hm : (State.pair (honestInitiator C a ra rb phase)
      (honestResponder C b ra rb (some (a.psk, key)) phase') outcomes).Macced m) :
    C.sha3 m = honestConfirm C a ra rb ∧
        m = ((honestInitiator C a ra rb phase).confirm (honestResp C rb)).input C ∨
      C.sha3 m = honestFinish C a ra rb ∧
        m = ((honestInitiator C a ra rb phase).finish (honestResp C rb)).input C := by
  rcases hm with ⟨i, x, r, hx, ⟨resp, hresp, rfl⟩, rfl⟩ |
    ⟨j, y, r, hy, ⟨hello, psk, key', hhello, hacc, rfl⟩, rfl⟩
  · left
    by_cases hi : i = 0
    · subst hi
      cases hx
      cases hresp
      exact ⟨rfl, rfl⟩
    · simp only [State.pair, if_neg hi] at hx
      cases hx
  · right
    by_cases hj : j = 0
    · subst hj
      cases hy
      cases hhello
      cases hacc
      have hinput : ((honestResponder C b ra rb (some (a.psk, key)) phase').finish
          (honestHello C ra rb) a.psk).input C =
          ((honestInitiator C a ra rb phase).finish (honestResp C rb)).input C :=
        congrArg (macInput _ _ _) hbind
      rw [hinput]
      exact ⟨rfl, rfl⟩
    · simp only [State.pair, if_neg hj] at hy
      cases hy

/-- One pre-shared key is all it holds. -/
theorem holds_honest {accepted : Option (Bytes 32 × LinkKey)} {phase : InitiatorPhase}
    {phase' : ResponderPhase} {matched : Option RelayId} {outcomes : List (RelayId × Bool)}
    {psk : Bytes 32} (hcand : b.candidates = [(a.psk, matched)])
    (hpsk : (State.pair (honestInitiator C a ra rb phase)
      (honestResponder C b ra rb accepted phase') outcomes).Holds psk) : psk = a.psk := by
  rcases hpsk with ⟨i, x, hx, rfl⟩ | ⟨j, y, matched', hy, hmem⟩
  · by_cases hi : i = 0
    · subst hi
      cases hx
      rfl
    · simp only [State.pair, if_neg hi] at hx
      cases hx
  · by_cases hj : j = 0
    · subst hj
      cases hy
      have hmem : (psk, matched') ∈ b.candidates := hmem
      rw [hcand] at hmem
      exact congrArg Prod.fst (List.mem_singleton.mp hmem)
    · simp only [State.pair, if_neg hj] at hy
      cases hy

end Honest

/-! ## The theorem -/

/-- **Agreement**, in a state of the system. -/
structure State.Agreement (s : State C) : Prop where
  /-- A completed initiator has the responder it intended: the same pre-shared key, the
  relay id and commitment it asked for, the same transcript and the same session key. -/
  initiator : ∀ i x key, s.initiators i = some x → x.phase = .completed key →
    x.config.identityBinding = true →
    ∃ resp j y hello, x.resp = some resp ∧ s.responders j = some y ∧ y.hello = some hello ∧
      y.accepted = some (x.config.psk, key) ∧
      (∃ matched, (x.config.psk, matched) ∈ y.config.candidates) ∧
      hello.transcript = .fromMessages x.init resp ∧
      y.config.identityBinding = true ∧ y.config.localRelayId = x.config.peerRelayId ∧
      y.config.localKemCommitment = x.config.kemPublicCommitment
  /-- A completed responder has an initiator that computed its confirm MAC. -/
  responder : ∀ j y key matched, s.responders j = some y → y.phase = .completed key matched →
    ∃ psk hello i x resp, y.accepted = some (psk, key) ∧ (psk, matched) ∈ y.config.candidates ∧
      y.hello = some hello ∧ s.initiators i = some x ∧ x.resp = some resp ∧
      x.config.psk = psk ∧ hello.transcript = .fromMessages x.init resp ∧
      x.config.binding = y.config.binding ∧
      key = deriveLinkSessionKey C x.initSk resp.ephPk (.fromMessages x.init resp)

/-- **The roles are apart** in an event of a run: `s` is the state before it, `t` that at the end. -/
def RolesApart (s t : State C) : Event ρ → Prop
  -- what completes an initiator is the finish MAC it checks, and no confirm MAC of the run
  | .deliverFinish i msg => ∀ x key, s.initiators i = some x → x.phase = .awaitFinish →
      (x.onFinish msg).phase = .completed key →
      ∃ resp, x.resp = some resp ∧ msg = ((x.finish resp).tag C).toList ∧
        ∀ k x' resp', t.initiators k = some x' → x'.resp = some resp' →
          msg ≠ ((x'.confirm resp').tag C).toList
  -- what a responder accepts is a confirm MAC it checks, and no finish MAC of the run
  | .deliverConfirm j msg writeOk => ∀ y psk key, s.responders j = some y →
      y.phase = .awaitConfirm → (y.onConfirm msg writeOk).1.accepted = some (psk, key) →
      ∃ hello, y.hello = some hello ∧ msg = ((y.confirm hello psk).tag C).toList ∧
        ∀ k y' hello' psk' key', t.responders k = some y' → y'.hello = some hello' →
          y'.accepted = some (psk', key') → msg ≠ ((y'.finish hello' psk').tag C).toList
  | _ => True

/-- **Agreement for every run**, whatever the network delivers, if MACs are ideal, the
digest has no collisions on what is MACed and Diffie–Hellman commutes. -/
theorem link_handshake_agreement
    (hdh : ∀ a b, C.x25519.diffieHellman a (C.x25519.publicKey b) =
      C.x25519.diffieHellman b (C.x25519.publicKey a))
    (events : List (Event ρ))
    (hideal : Run.Guarded step Authentic (State.initial C) events)
    (hkeys : (run (State.initial C) events).AuthKeysDistinct)
    (hfree : (run (State.initial C) events).CollisionFree) :
    (run (State.initial C) events).Agreement ∧
      ∀ before e after, events = before ++ e :: after →
        RolesApart (run (State.initial C) before) (run (State.initial C) events) e := by
  have hinv := inv_run hideal
  refine ⟨⟨fun i x key hx hdone hon => ?_, fun j y key matched hy hdone => ?_⟩,
    fun before e after hsplit => ?_⟩
  · obtain ⟨resp, j, y, hello, hresp, hy, hhello, hacc, hcand, htrans, hbind⟩ :=
      hinv.agreement_initiator hdh hkeys hx hdone
    rw [ResponderConfig.binding, InitiatorConfig.binding, hon] at hbind
    obtain ⟨hon', hid, hcommit⟩ := linkHandshakeBinding_injective hbind.symm
    exact ⟨resp, j, y, hello, hresp, hy, hhello, hacc, hcand, htrans, hon', hid.symm,
      hcommit.symm⟩
  · obtain ⟨psk, hacc, hcand⟩ := (hinv.responders j y hy).completed key matched hdone
    obtain ⟨hello, i, x, resp, hhello, hx, hresp, hpsk, htrans, hbind, hkey⟩ :=
      hinv.agreement_responder hdh hkeys hy hacc
    exact ⟨psk, hello, i, x, resp, hacc, hcand, hhello, hx, hresp, hpsk, htrans, hbind, hkey⟩
  · rw [hsplit, Run.guarded_append] at hideal
    obtain ⟨hbefore, hauth, hafter⟩ := hideal
    have hmid := inv_run hbefore
    have hlater : ∀ m, (run (State.initial C) before).Macced m →
        (run (State.initial C) events).Macced m := by
      intro m hm
      have hend := (hmid.step e hauth).macced_run hafter (hmid.macced_step e hauth hm)
      rwa [hsplit, run, List.foldl_append, List.foldl_cons]
    cases e with
    | deliverFinish i msg =>
      exact fun x key hx hwait hdone => finish_ne_confirm hfree hlater hauth hx hwait hdone
    | deliverConfirm j msg writeOk =>
      exact fun y psk key hy hwait hacc =>
        hmid.confirm_ne_finish hfree hlater hauth hy hwait hacc
    | _ => exact trivial

section Checksum

/-- An initiator and a responder with one pre-shared key, both bound to relay `9…9`. -/
def checksumInitiator : InitiatorConfig :=
  ⟨List.Vector.replicate 32 7, List.Vector.replicate 32 9, some (List.Vector.replicate 32 5), true⟩

/-- A responder that knows the initiator's key. -/
def checksumResponder : ResponderConfig :=
  ⟨List.Vector.replicate 32 9, some (List.Vector.replicate 32 5), none,
    [(List.Vector.replicate 32 8, List.Vector.replicate 32 7)], true, true⟩

theorem checksum_dh (a b : UInt8) :
    checksumSuite.x25519.diffieHellman a (checksumSuite.x25519.publicKey b) =
      checksumSuite.x25519.diffieHellman b (checksumSuite.x25519.publicKey a) := by
  change List.Vector.replicate 32 (a * b) = List.Vector.replicate 32 (b * a)
  rw [UInt8.mul_comm]

theorem checksum_match : HonestMatch checksumSuite checksumInitiator checksumResponder 3 4
    (some (List.Vector.replicate 32 8)) :=
  honestMatch_of_candidates rfl rfl

theorem checksum_confirm_ne_finish : honestConfirm checksumSuite checksumInitiator 3 4 ≠
    honestFinish checksumSuite checksumInitiator 3 4 := by
  decide +kernel

/-- Two relays that run the handshake over `checksumSuite` complete it and agree. -/
theorem link_handshake_agreement_checksum :
    (run (State.initial checksumSuite)
      (honestEvents checksumSuite checksumInitiator checksumResponder 3 4)).Agreement ∧
    RolesApart
      (run (State.initial checksumSuite)
        ((honestEvents checksumSuite checksumInitiator checksumResponder 3 4).take 5))
      (run (State.initial checksumSuite)
        (honestEvents checksumSuite checksumInitiator checksumResponder 3 4))
      (.deliverFinish 0 (honestFinish checksumSuite checksumInitiator 3 4).toList) ∧
    ∃ x y key matched, (run (State.initial checksumSuite)
      (honestEvents checksumSuite checksumInitiator checksumResponder 3 4)) =
        State.pair x y [(List.Vector.replicate 32 8, true)] ∧
      x.phase = .completed key ∧ y.phase = .completed key matched ∧
      x.config.identityBinding = true := by
  have hrun := run_honestEvents (C := checksumSuite) rfl rfl checksum_dh checksum_match
  have hkeys : (run (State.initial checksumSuite) (honestEvents checksumSuite checksumInitiator
      checksumResponder 3 4)).AuthKeysDistinct := by
    rw [hrun]
    rintro p q hp hq -
    rw [holds_honest rfl hp, holds_honest rfl hq]
  have hfree : (run (State.initial checksumSuite) (honestEvents checksumSuite checksumInitiator
      checksumResponder 3 4)).CollisionFree := by
    rw [hrun]
    intro m m' hm hm' htag
    rcases macced_honest rfl hm with ⟨hsha, rfl⟩ | ⟨hsha, rfl⟩ <;>
      rcases macced_honest rfl hm' with ⟨hsha', rfl⟩ | ⟨hsha', rfl⟩
    · rfl
    · exact absurd (hsha.symm.trans (htag.trans hsha')) checksum_confirm_ne_finish
    · exact absurd (hsha'.symm.trans (htag.symm.trans hsha)) checksum_confirm_ne_finish
    · rfl
  obtain ⟨hagree, hapart⟩ := link_handshake_agreement checksum_dh _
    (guarded_honestEvents rfl rfl checksum_dh checksum_match) hkeys hfree
  exact ⟨hagree, hapart _ _ [] rfl, _, _, _, _, hrun, rfl, rfl, rfl⟩

end Checksum

end Handshake

end Aegis
