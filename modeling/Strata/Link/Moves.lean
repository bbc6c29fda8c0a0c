import Mathlib.Tactic
import Strata.Link.Drivers

/-! What one wake-up of a handshake session can do to the world of sessions. -/

namespace Strata.Link

open Utf8 (Text Bytes)

variable (suite : Suite)

structure ClientSound (session : ClientSession) : Prop where
  own : session.hello.clusterId = session.cfg.clusterId ∧
    session.hello.nodeId = session.cfg.nodeId
  short : session.phase = .awaitingChallenge →
    ∀ text ∈ session.hello.texts, (Utf8.encode text).length ≤ maxFramePayload

structure AnswerSound (answer : Answer) : Prop where
  own : answer.hello.clusterId = answer.cfg.clusterId ∧ answer.hello.nodeId = answer.cfg.nodeId
  short : Short answer.hello answer.challenge
  computed : computeResponse suite.hmac suite.base64 answer.hello answer.challenge answer.psk =
    .ok answer.response
  held : answer.cfg.psks.lookup answer.challenge.pskId = some answer.psk

structure ChallengeSound (generated : List Bytes) (cfg : ServerHandshakeConfig) (hello : AuthHello)
    (challenge : AuthChallenge) (psk : Bytes) : Prop where
  short : Short hello challenge
  pskId : challenge.pskId = cfg.pskId
  held : cfg.psks.lookup cfg.pskId = some psk
  drawn : ∃ nonce ∈ generated, challenge.serverNonceB64 = suite.base64.encode nonce

inductive Move (world : World) : Event → World → Prop
  | stays {event : Event} : Move world event world
  | client {event : Event} (id : Nat) (session : ClientSession) (generated : List Bytes)
      (sound : ClientSound session) (grows : world.generated ⊆ generated) :
      Move world event ({ world with generated }.setClient id session)
  | answers {event : Event} (id : Nat) (session : ClientSession) (answer : Answer)
      (client : ClientSound session) (sound : AnswerSound suite answer) :
      Move world event ({ world with answered := answer :: world.answered }.setClient id session)
  | server {event : Event} (id : Nat) (session : ServerSession) (generated : List Bytes)
      (idle : ∀ hello challenge psk, session.phase ≠ .awaitingResponse hello challenge psk)
      (failed : ∀ peer, session.phase ≠ .finished (.ok peer))
      (grows : world.generated ⊆ generated) :
      Move world event ({ world with generated }.setServer id session)
  | challenges (id : Nat) (input nonce : Bytes) (up : Bool) (cfg : ServerHandshakeConfig)
      (hello : AuthHello) (challenge : AuthChallenge) (psk : Bytes)
      (coded : challenge.serverNonceB64 = suite.base64.encode nonce)
      (sound : ChallengeSound suite (nonce :: world.generated) cfg hello challenge psk) :
      Move world (.serverReadsHello id input nonce up)
        ({ world with generated := nonce :: world.generated }.setServer id
          ⟨cfg, .awaitingResponse hello challenge psk⟩)
  | accepts (id : Nat) (input : Bytes) (nowMs : Int64) (up : Bool) (cfg : ServerHandshakeConfig)
      (acceptance : Acceptance) (result : Except LinkError LinkPeer)
      (own : acceptance.session = id)
      (waiting : world.servers id = some
        ⟨cfg, .awaitingResponse acceptance.hello acceptance.challenge acceptance.psk⟩)
      (read : readFrame suite.response input = .ok acceptance.response)
      (verified : verifyResponse suite.hmac suite.base64 acceptance.hello acceptance.challenge
        acceptance.response acceptance.psk nowMs = .ok ())
      (peer : ∀ peer, result = .ok peer → peer = acceptance.peer) :
      Move world (.serverReadsResponse id input nowMs up)
        ({ world with accepted := acceptance :: world.accepted }.setServer id
          ⟨cfg, .finished result⟩)

variable {suite} {world : World}

theorem short_of_texts {hello : AuthHello} {challenge : AuthChallenge}
    (hellos : ∀ text ∈ hello.texts, (Utf8.encode text).length ≤ maxFramePayload)
    (challenges : ∀ text ∈ challenge.texts, (Utf8.encode text).length ≤ maxFramePayload) :
    Short hello challenge := by
  have cap : maxFramePayload < 2 ^ 32 := by decide
  constructor
  case clusterId => exact (hellos _ (by simp [AuthHello.texts])).trans_lt cap
  case nodeId => exact (hellos _ (by simp [AuthHello.texts])).trans_lt cap
  case pskId => exact (challenges _ (by simp [AuthChallenge.texts])).trans_lt cap

theorem mapError_eq_ok {ε ε' α : Type} {f : ε → ε'} {result : Except ε α} {value : α}
    (mapped : result.mapError f = .ok value) : result = .ok value := by
  cases result with
  | error failure => cases mapped
  | ok found => exact congrArg Except.ok (Except.ok.inj mapped)

theorem clientAnswer_sound {cfg : ClientHandshakeConfig} {hello : AuthHello} {input : Bytes}
    {answer : Answer} (client : ClientSound ⟨cfg, hello, .awaitingChallenge⟩)
    (answered : clientAnswer suite cfg hello input = .ok answer) :
    AnswerSound suite answer := by
  simp only [clientAnswer, bind, Except.bind] at answered
  cases read : (readFrame suite.challenge input).mapError LinkError.frame with
  | error why =>
      rw [read] at answered
      cases answered
  | ok challenge =>
      rw [read] at answered
      dsimp only at answered
      cases held : cfg.psks.lookup challenge.pskId with
      | none =>
          rw [held] at answered
          cases answered
      | some psk =>
          rw [held] at answered
          dsimp only at answered
          cases computed : (computeResponse suite.hmac suite.base64 hello challenge psk).mapError
              LinkError.protocol with
          | error why =>
              rw [computed] at answered
              cases answered
          | ok response =>
              rw [computed] at answered
              cases answered
              exact ⟨client.own,
                short_of_texts (client.short rfl) (readFrame_short (mapError_eq_ok read)),
                mapError_eq_ok computed, held⟩

theorem serverChallenge_sound (world : World) {cfg : ServerHandshakeConfig}
    {input nonce frame : Bytes} {up : Bool}
    {hello : AuthHello} {challenge : AuthChallenge} {psk : Bytes}
    (challenged : serverChallenge suite cfg input nonce = .ok (hello, challenge, psk))
    (written : writeFrame suite.challenge challenge up = .ok frame) :
    challenge.serverNonceB64 = suite.base64.encode nonce ∧
      ChallengeSound suite (nonce :: world.generated) cfg hello challenge psk := by
  simp only [serverChallenge, bind, Except.bind] at challenged
  cases read : (readFrame suite.hello input).mapError LinkError.frame with
  | error why =>
      rw [read] at challenged
      cases challenged
  | ok found =>
      rw [read] at challenged
      dsimp only at challenged
      cases held : cfg.psks.lookup cfg.pskId with
      | none =>
          rw [held] at challenged
          cases challenged
      | some key =>
          rw [held] at challenged
          cases challenged
          exact ⟨rfl, short_of_texts (readFrame_short (mapError_eq_ok read))
            (writeFrame_short written), rfl, held, nonce, List.mem_cons_self, rfl⟩

theorem clientReads_moves (clients : ∀ id session, world.clients id = some session →
    ClientSound session) (id : Nat) (input : Bytes) (up : Bool) :
    Move suite world (.clientReads id input up)
      (step suite world (.clientReads id input up)).1 := by
  simp only [step]
  cases found : world.clients id with
  | none => exact .stays
  | some session =>
      have sound := clients id session found
      obtain ⟨cfg, hello, phase⟩ := session
      have ended (result : Except LinkError LinkAccepted) :
          ClientSound ⟨cfg, hello, .finished result⟩ := ⟨sound.own, nofun⟩
      cases phase with
      | finished result => exact .stays
      | awaitingOutcome => exact .client id _ _ (ended _) (List.Subset.refl _)
      | awaitingChallenge =>
          dsimp only
          cases answered : clientAnswer suite cfg hello input with
          | error why => exact .client id _ _ (ended _) (List.Subset.refl _)
          | ok answer =>
              have made := clientAnswer_sound sound answered
              dsimp only
              cases writeFrame suite.response answer.response up with
              | error why => exact .answers id _ answer (ended _) made
              | ok frame => exact .answers id _ answer ⟨sound.own, nofun⟩ made

theorem serverReadsHello_moves (id : Nat) (input nonce : Bytes) (up : Bool) :
    Move suite world (.serverReadsHello id input nonce up)
      (step suite world (.serverReadsHello id input nonce up)).1 := by
  simp only [step]
  split
  · rename_i cfg waiting
    split
    · exact .server id _ _ nofun nofun (List.Subset.refl _)
    · rename_i hello challenge psk challenged
      cases written : writeFrame suite.challenge challenge up with
      | error why => exact .server id _ _ nofun nofun (List.subset_cons_self _ _)
      | ok frame =>
          have sound := serverChallenge_sound world challenged written
          exact .challenges id input nonce up cfg hello challenge psk sound.1 sound.2
  · exact .stays

theorem serverReadsResponse_moves (id : Nat) (input : Bytes) (nowMs : Int64) (up : Bool) :
    Move suite world (.serverReadsResponse id input nowMs up)
      (step suite world (.serverReadsResponse id input nowMs up)).1 := by
  simp only [step]
  split
  · rename_i cfg hello challenge psk waiting
    cases read : readFrame suite.response input with
    | error why => exact .server id _ _ nofun nofun (List.Subset.refl _)
    | ok response =>
        dsimp only
        cases verified :
          verifyResponse suite.hmac suite.base64 hello challenge response psk nowMs with
        | error why => exact .server id _ _ nofun nofun (List.Subset.refl _)
        | ok _ =>
            dsimp only
            split
            · exact .accepts id input nowMs up cfg ⟨id, hello, challenge, psk, response⟩ _ rfl
                waiting read verified nofun
            · refine .accepts id input nowMs up cfg ⟨id, hello, challenge, psk, response⟩ _ rfl
                waiting read verified ?_
              intro peer same
              exact (Except.ok.inj same).symm
  · exact .stays

theorem step_moves (clients : ∀ id session, world.clients id = some session →
    ClientSound session) (event : Event) :
    Move suite world event (step suite world event).1 := by
  cases event with
  | clientStart id cfg nonce nowMs up =>
      simp only [step]
      split
      · exact .stays
      · cases written : writeFrame suite.hello (clientHello suite cfg nonce nowMs) up with
        | error why =>
            exact .client id _ _ ⟨⟨rfl, rfl⟩, nofun⟩ (List.subset_cons_self _ _)
        | ok frame =>
            refine .client id _ _ ⟨⟨rfl, rfl⟩, ?_⟩ (List.subset_cons_self _ _)
            exact fun _ => writeFrame_short written
  | clientReads id input up => exact clientReads_moves clients id input up
  | clientTimesOut id =>
      simp only [step]
      split
      · exact .stays
      · exact .stays
      · rename_i cfg hello phase _ found
        exact .client id _ _ ⟨(clients _ _ found).own, nofun⟩ (List.Subset.refl _)
  | serverStart id cfg =>
      simp only [step]
      split
      · exact .stays
      · exact .server id _ _ nofun nofun (List.Subset.refl _)
  | serverReadsHello id input nonce up => exact serverReadsHello_moves id input nonce up
  | serverReadsResponse id input nowMs up => exact serverReadsResponse_moves id input nowMs up
  | serverTimesOut id =>
      simp only [step]
      split
      · exact .stays
      · exact .stays
      · exact .server id _ _ nofun nofun (List.Subset.refl _)

end Strata.Link
