import Aegis.Crypto.Link
import Aegis.Lib.Run

/-!
# The link handshake between relays (`net.rs`, pre-shared keys)

Any number of initiator and responder sessions run at once over a network that
delivers whatever it likes to whom it likes.  A session is what
`run_initiator_handshake` or `run_responder_handshake` holds between two reads of
its stream, and an event is one read (or its failure) with the write that follows.

* `InitiatorSession.start`, `onResp`, `onFinish` — the reads of an initiator.
* `ResponderSession.start`, `onInit`, `onConfirm` — the reads of a responder, which
  tries its pre-shared keys in order.
-/

namespace Aegis

open Buffer

/-- The id of a relay. -/
abbrev RelayId := Bytes 32

/-- `link_handshake_binding`. -/
def linkHandshakeBinding (identityBinding : Bool) (peerRelayId : RelayId)
    (kemPublicCommitment : Option (Bytes 32)) : Option LinkHandshakeBinding :=
  if identityBinding = false then none else some ⟨peerRelayId, kemPublicCommitment⟩

namespace Handshake

/-! ## Sessions -/

/-- The arguments of `run_initiator_handshake`. -/
structure InitiatorConfig where
  psk : Bytes 32
  peerRelayId : RelayId
  kemPublicCommitment : Option (Bytes 32)
  identityBinding : Bool

/-- The arguments of `run_responder_handshake`: the peer table as the pairs of id and
pre-shared key, in the order they are tried. -/
structure ResponderConfig where
  localRelayId : RelayId
  localKemCommitment : Option (Bytes 32)
  ingressLinkKey : Option (Bytes 32)
  peerTable : List (RelayId × Bytes 32)
  identityBinding : Bool
  requireIngressKemCommitment : Bool

/-- What the initiator binds its MAC to, if anything. -/
def InitiatorConfig.binding (c : InitiatorConfig) : Option LinkHandshakeBinding :=
  linkHandshakeBinding c.identityBinding c.peerRelayId c.kemPublicCommitment

/-- What the responder binds its MAC to, if anything. -/
def ResponderConfig.binding (c : ResponderConfig) : Option LinkHandshakeBinding :=
  linkHandshakeBinding c.identityBinding c.localRelayId c.localKemCommitment

/-- The pre-shared keys a responder tries, with the peer each one identifies: the
ingress key first, then the peer table. -/
def ResponderConfig.candidates (c : ResponderConfig) : List (Bytes 32 × Option RelayId) :=
  c.ingressLinkKey.toList.map (fun psk => (psk, none)) ++
    c.peerTable.map fun peer => (peer.2, some peer.1)

/-- How far an initiator is. -/
inductive InitiatorPhase where
  | awaitResp
  | awaitFinish
  | completed (key : LinkKey)
  | failed

/-- How far a responder is. -/
inductive ResponderPhase where
  | awaitInit
  | awaitConfirm
  | completed (key : LinkKey) (matched : Option RelayId)
  | failed

variable {ρ : Type} (C : Suite ρ)

/-- An initiator; `resp` is the response it computed its confirm MAC for. -/
structure InitiatorSession where
  config : InitiatorConfig
  initSk : C.x25519.Secret
  init : LinkHandshakeInit
  resp : Option LinkHandshakeResp
  phase : InitiatorPhase

/-- What a responder holds once it has read the first message. -/
structure ResponderHello where
  init : LinkHandshakeInit
  respSk : C.x25519.Secret
  resp : LinkHandshakeResp

/-- A responder; `accepted` is the pre-shared key that matched and the session key
derived with it. -/
structure ResponderSession where
  config : ResponderConfig
  hello : Option (ResponderHello C)
  accepted : Option (Bytes 32 × LinkKey)
  phase : ResponderPhase

/-- The transcript of the two hellos. -/
def ResponderHello.transcript {C : Suite ρ} (h : ResponderHello C) : LinkHandshakeTranscript :=
  .fromMessages h.init h.resp

/-! ## One read of an initiator -/

namespace InitiatorSession

variable {C}

/-- Draw the ephemeral key and write the first message. -/
def start (config : InitiatorConfig) (rng : ρ) (writeOk : Bool) : Option (InitiatorSession C) :=
  let ((initSk, initMsg), _) := linkHandshakeInitWrite C rng
  match parseLinkHandshakeInit initMsg with
  | .error _ => none
  | .ok init => some ⟨config, initSk, init, none, if writeOk then .awaitResp else .failed⟩

/-- Read the response and write the confirm MAC. -/
def onResp (x : InitiatorSession C) (respMsg : List UInt8) (writeOk : Bool) :
    InitiatorSession C :=
  match x.phase with
  | .awaitResp =>
    match parseLinkHandshakeResp respMsg with
    | .error _ => { x with phase := .failed }
    | .ok resp =>
      { x with resp := some resp, phase := if writeOk then .awaitFinish else .failed }
  | _ => x

/-- Read the finish MAC and derive the session key. -/
def onFinish (x : InitiatorSession C) (finishMsg : List UInt8) : InitiatorSession C :=
  match x.phase, x.resp with
  | .awaitFinish, some resp =>
    match parseLinkHandshakeMac finishMsg with
    | .error _ => { x with phase := .failed }
    | .ok finish =>
      let transcript := LinkHandshakeTranscript.fromMessages x.init resp
      if verifyLinkHandshakeFinishMac C x.config.psk transcript x.config.binding finish = false then
        { x with phase := .failed }
      else
        { x with phase := .completed (deriveLinkSessionKey C x.initSk resp.ephPk transcript) }
  | _, _ => x

/-- A read that failed or timed out. -/
def abort (x : InitiatorSession C) : InitiatorSession C :=
  match x.phase with
  | .completed _ => x
  | _ => { x with phase := .failed }

end InitiatorSession

/-! ## One read of a responder -/

namespace ResponderSession

variable {C}

/-- A responder that must bind a commitment it does not have fails before any read. -/
def start (config : ResponderConfig) : ResponderSession C :=
  ⟨config, none, none,
    if config.requireIngressKemCommitment && config.localKemCommitment.isNone then .failed
    else .awaitInit⟩

/-- Read the first message and write the response. -/
def onInit (y : ResponderSession C) (initMsg : List UInt8) (rng : ρ) (writeOk : Bool) :
    ResponderSession C :=
  match y.phase with
  | .awaitInit =>
    match parseLinkHandshakeInit initMsg with
    | .error _ => { y with phase := .failed }
    | .ok init =>
      let ((respSk, respMsg), _) := linkHandshakeRespWrite C rng
      match parseLinkHandshakeResp respMsg with
      | .error _ => { y with phase := .failed }
      | .ok resp =>
        { y with
          hello := some ⟨init, respSk, resp⟩
          phase := if writeOk then .awaitConfirm else .failed }
  | _ => y

/-- The first key under which the confirm MAC verifies. -/
def matchPsk (config : ResponderConfig) (transcript : LinkHandshakeTranscript)
    (confirm : Bytes linkHandshakeMacLen) : Option (Bytes 32 × Option RelayId) :=
  config.candidates.find? fun c =>
    verifyLinkHandshakeConfirmMac C c.1 transcript config.binding confirm

/-- What `record_inbound_handshake_outcome` records for a matched peer. -/
def recordOutcome (matched : Option RelayId) (success : Bool) : List (RelayId × Bool) :=
  matched.toList.map fun id => (id, success)

/-- Read the confirm MAC, derive the session key and write the finish MAC.  The second
component is what is recorded for the peer. -/
def onConfirm (y : ResponderSession C) (confirmMsg : List UInt8) (writeOk : Bool) :
    ResponderSession C × List (RelayId × Bool) :=
  match y.phase, y.hello with
  | .awaitConfirm, some hello =>
    match parseLinkHandshakeMac confirmMsg with
    | .error _ => ({ y with phase := .failed }, [])
    | .ok confirm =>
      match matchPsk (C := C) y.config hello.transcript confirm with
      | none => ({ y with phase := .failed }, [])
      | some (psk, matched) =>
        match linkHandshakeResponderFinish C psk hello.respSk hello.init hello.resp confirmMsg
            y.config.binding with
        | .error _ => ({ y with phase := .failed }, recordOutcome matched false)
        | .ok session =>
          if writeOk then
            ({ y with accepted := some (psk, session), phase := .completed session matched },
              recordOutcome matched true)
          else
            ({ y with accepted := some (psk, session), phase := .failed },
              recordOutcome matched false)
  | _, _ => (y, [])

/-- The session fails, unless it has completed. -/
def abort (y : ResponderSession C) : ResponderSession C :=
  match y.phase with
  | .completed _ _ => y
  | _ => { y with phase := .failed }

end ResponderSession

end Handshake

end Aegis
