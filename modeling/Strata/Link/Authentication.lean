import Mathlib.Tactic
import Strata.Link.Moves

/-! Whom a server handshake can end with, whatever the network does. The network may read,
drop, replay, reorder and invent every byte. It cannot make a tag under a key it does not
know, and nonces do not repeat. -/

namespace Strata.Link

open Utf8 (Text Bytes)
open Machine (run Meets)

variable (suite : Suite)

def Answer.Covers (answer : Answer) (message : Bytes) : Prop :=
  ∃ pair, nonces suite.base64 answer.hello answer.challenge = .ok pair ∧
    message = boundInput answer.hello answer.challenge pair

/-- What the network cannot do: repeat a nonce, or deliver a tag that no client computed
under a key that is not `known` to it. -/
def Honest (known : Bytes → Prop) (world : World) : Event → Prop
  | .clientStart _ _ nonce _ _ => nonce.length = nonceLen ∧ nonce ∉ world.generated
  | .serverReadsHello _ _ nonce _ => nonce.length = nonceLen ∧ nonce ∉ world.generated
  | .serverReadsResponse _ input _ _ => ∀ response psk message,
      readFrame suite.response input = .ok response →
      suite.base64.decode response.macB64 = some (suite.hmac psk message) → ¬ known psk →
      ∃ answer ∈ world.answered, answer.psk = psk ∧ answer.Covers suite message
  | _ => True

structure Origin (answer : Answer) (acceptance : Acceptance) : Prop where
  clusterId : answer.cfg.clusterId = acceptance.peer.clusterId
  nodeId : answer.cfg.nodeId = acceptance.peer.nodeId
  pskId : answer.challenge.pskId = acceptance.challenge.pskId
  psk : answer.cfg.psks.lookup answer.challenge.pskId = some acceptance.psk
  serverNonce : suite.base64.decode answer.challenge.serverNonceB64 =
    suite.base64.decode acceptance.challenge.serverNonceB64
  tag : suite.base64.decode answer.response.macB64 =
    suite.base64.decode acceptance.response.macB64

variable {suite} {known : Bytes → Prop} {world : World}

def Acceptance.Verified (suite : Suite) (acceptance : Acceptance) : Prop :=
  ∃ pair, nonces suite.base64 acceptance.hello acceptance.challenge = .ok pair ∧
    suite.base64.decode acceptance.response.macB64 =
      some (suite.hmac acceptance.psk (boundInput acceptance.hello acceptance.challenge pair))

def Waits (world : World) (id : Nat) (cfg : ServerHandshakeConfig) (hello : AuthHello)
    (challenge : AuthChallenge) (psk : Bytes) : Prop :=
  world.servers id = some ⟨cfg, .awaitingResponse hello challenge psk⟩

structure ServersSound (suite : Suite) (world : World) : Prop where
  waiting : ∀ id cfg hello challenge psk, Waits world id cfg hello challenge psk →
    ChallengeSound suite world.generated cfg hello challenge psk
  unspent : ∀ id cfg hello challenge psk, Waits world id cfg hello challenge psk →
    ∀ acceptance ∈ world.accepted,
      challenge.serverNonceB64 ≠ acceptance.challenge.serverNonceB64
  apart : ∀ id cfg hello challenge psk, Waits world id cfg hello challenge psk →
    ∀ id' cfg' hello' challenge' psk', Waits world id' cfg' hello' challenge' psk' →
      challenge.serverNonceB64 = challenge'.serverNonceB64 → id = id'
  spent : ∀ acceptance ∈ world.accepted, acceptance.Verified suite ∧
    ∃ cfg, ChallengeSound suite world.generated cfg acceptance.hello acceptance.challenge
      acceptance.psk
  distinct : world.accepted.Pairwise fun first second =>
    first.challenge.serverNonceB64 ≠ second.challenge.serverNonceB64
  returned : ∀ id cfg peer, world.servers id = some ⟨cfg, .finished (.ok peer)⟩ →
    ∃ acceptance ∈ world.accepted, acceptance.session = id ∧ peer = acceptance.peer ∧
      acceptance.challenge.pskId = cfg.pskId ∧ cfg.psks.lookup cfg.pskId = some acceptance.psk

theorem ChallengeSound.mono {before later : List Bytes} (grows : before ⊆ later)
    {cfg : ServerHandshakeConfig} {hello : AuthHello} {challenge : AuthChallenge} {psk : Bytes}
    (sound : ChallengeSound suite before cfg hello challenge psk) :
    ChallengeSound suite later cfg hello challenge psk := by
  obtain ⟨nonce, member, coded⟩ := sound.drawn
  exact ⟨sound.short, sound.pskId, sound.held, nonce, grows member, coded⟩

theorem setServer_self (id : Nat) (session : ServerSession) :
    (world.setServer id session).servers id = some session :=
  Function.update_self ..

theorem setServer_of_ne {id other : Nat} (differs : other ≠ id) (session : ServerSession) :
    (world.setServer id session).servers other = world.servers other :=
  Function.update_of_ne differs ..

theorem fresh_challenge {nonce : Bytes} (fresh : nonce ∉ world.generated)
    {cfg : ServerHandshakeConfig} {hello : AuthHello} {challenge : AuthChallenge} {psk : Bytes}
    (sound : ChallengeSound suite world.generated cfg hello challenge psk) :
    suite.base64.encode nonce ≠ challenge.serverNonceB64 := by
  obtain ⟨old, member, coded⟩ := sound.drawn
  intro same
  have bytes : some nonce = some old := by
    rw [← suite.base64.decode_encode nonce, same, coded, suite.base64.decode_encode]
  exact fresh (Option.some.inj bytes ▸ member)

theorem ServersSound.quiet (sound : ServersSound suite world) {later : World}
    (grows : world.generated ⊆ later.generated) (accepted : later.accepted = world.accepted)
    (waits : ∀ id cfg hello challenge psk, Waits later id cfg hello challenge psk →
      Waits world id cfg hello challenge psk)
    (returns : ∀ id cfg peer, later.servers id = some ⟨cfg, .finished (.ok peer)⟩ →
      world.servers id = some ⟨cfg, .finished (.ok peer)⟩) : ServersSound suite later := by
  constructor
  case waiting =>
    intro id cfg hello challenge psk open_
    exact (sound.waiting _ _ _ _ _ (waits _ _ _ _ _ open_)).mono grows
  case unspent =>
    intro id cfg hello challenge psk open_
    rw [accepted]
    exact sound.unspent _ _ _ _ _ (waits _ _ _ _ _ open_)
  case apart =>
    intro id cfg hello challenge psk open_ id' cfg' hello' challenge' psk' open'
    exact sound.apart _ _ _ _ _ (waits _ _ _ _ _ open_) _ _ _ _ _ (waits _ _ _ _ _ open')
  case spent =>
    rw [accepted]
    intro acceptance member
    obtain ⟨verified, cfg, challenge⟩ := sound.spent acceptance member
    exact ⟨verified, cfg, challenge.mono grows⟩
  case distinct =>
    rw [accepted]
    exact sound.distinct
  case returned =>
    rw [accepted]
    intro id cfg peer ended
    exact sound.returned id cfg peer (returns id cfg peer ended)

theorem ServersSound.challenges (sound : ServersSound suite world) {id : Nat} {nonce : Bytes}
    (fresh : nonce ∉ world.generated) {cfg : ServerHandshakeConfig} {hello : AuthHello}
    {challenge : AuthChallenge} {psk : Bytes}
    (coded : challenge.serverNonceB64 = suite.base64.encode nonce)
    (made : ChallengeSound suite (nonce :: world.generated) cfg hello challenge psk) :
    ServersSound suite ({ world with generated := nonce :: world.generated }.setServer id
      ⟨cfg, .awaitingResponse hello challenge psk⟩) := by
  have grows : world.generated ⊆ nonce :: world.generated := List.subset_cons_self _ _
  -- a session that waits now is the one that just asked, or waited before
  have waits {other cfg' hello' challenge' psk'} (open_ : Waits
      ({ world with generated := nonce :: world.generated }.setServer id
        ⟨cfg, .awaitingResponse hello challenge psk⟩) other cfg' hello' challenge' psk') :
      (other = id ∧ cfg = cfg' ∧ hello = hello' ∧ challenge = challenge' ∧ psk = psk') ∨
        (other ≠ id ∧ Waits world other cfg' hello' challenge' psk') := by
    by_cases same : other = id
    · rw [Waits, same, setServer_self] at open_
      simp only [Option.some.injEq, ServerSession.mk.injEq,
        ServerPhase.awaitingResponse.injEq] at open_
      exact .inl ⟨same, open_⟩
    · rw [Waits, setServer_of_ne same] at open_
      exact .inr ⟨same, open_⟩
  constructor
  case waiting =>
    intro other cfg' hello' challenge' psk' open_
    rcases waits open_ with ⟨rfl, rfl, rfl, rfl, rfl⟩ | ⟨-, before⟩
    · exact made
    · exact (sound.waiting _ _ _ _ _ before).mono grows
  case unspent =>
    intro other cfg' hello' challenge' psk' open_ acceptance member
    rcases waits open_ with ⟨rfl, rfl, rfl, rfl, rfl⟩ | ⟨-, before⟩
    · obtain ⟨-, _, old⟩ := sound.spent acceptance member
      rw [coded]
      exact fresh_challenge fresh old
    · exact sound.unspent _ _ _ _ _ before acceptance member
  case apart =>
    intro first cfg₁ hello₁ challenge₁ psk₁ open₁ second cfg₂ hello₂ challenge₂ psk₂ open₂ same
    rcases waits open₁ with ⟨rfl, rfl, rfl, rfl, rfl⟩ | ⟨-, before⟩
    · rcases waits open₂ with ⟨rfl, rfl, rfl, rfl, rfl⟩ | ⟨-, later⟩
      · rfl
      · rw [coded] at same
        exact (fresh_challenge fresh (sound.waiting _ _ _ _ _ later) same).elim
    · rcases waits open₂ with ⟨rfl, rfl, rfl, rfl, rfl⟩ | ⟨-, later⟩
      · rw [coded] at same
        exact (fresh_challenge fresh (sound.waiting _ _ _ _ _ before) same.symm).elim
      · exact sound.apart _ _ _ _ _ before _ _ _ _ _ later same
  case spent =>
    intro acceptance member
    obtain ⟨verified, other, old⟩ := sound.spent acceptance member
    exact ⟨verified, other, old.mono grows⟩
  case distinct => exact sound.distinct
  case returned =>
    intro other cfg' peer ended
    by_cases same : other = id
    · rw [same, setServer_self] at ended
      cases ended
    · rw [setServer_of_ne same] at ended
      exact sound.returned other cfg' peer ended

theorem ServersSound.accepts (sound : ServersSound suite world) {cfg : ServerHandshakeConfig}
    {acceptance : Acceptance} {result : Except LinkError LinkPeer}
    (waiting : Waits world acceptance.session cfg acceptance.hello acceptance.challenge
      acceptance.psk) (verified : acceptance.Verified suite)
    (peer : ∀ peer, result = .ok peer → peer = acceptance.peer) :
    ServersSound suite ({ world with accepted := acceptance :: world.accepted }.setServer
      acceptance.session ⟨cfg, .finished result⟩) := by
  have waits {other cfg' hello' challenge' psk'} (open_ : Waits
      ({ world with accepted := acceptance :: world.accepted }.setServer acceptance.session
        ⟨cfg, .finished result⟩) other cfg' hello' challenge' psk') :
      other ≠ acceptance.session ∧ Waits world other cfg' hello' challenge' psk' := by
    by_cases same : other = acceptance.session
    · rw [Waits, same, setServer_self] at open_
      cases open_
    · rw [Waits, setServer_of_ne same] at open_
      exact ⟨same, open_⟩
  have asked := sound.waiting _ _ _ _ _ waiting
  constructor
  case waiting =>
    intro other cfg' hello' challenge' psk' open_
    exact sound.waiting _ _ _ _ _ (waits open_).2
  case unspent =>
    intro other cfg' hello' challenge' psk' open_ spent member
    rcases List.mem_cons.mp member with rfl | before
    · intro same
      exact (waits open_).1 (sound.apart _ _ _ _ _ (waits open_).2 _ _ _ _ _ waiting same)
    · exact sound.unspent _ _ _ _ _ (waits open_).2 spent before
  case apart =>
    intro first cfg₁ hello₁ challenge₁ psk₁ open₁ second cfg₂ hello₂ challenge₂ psk₂ open₂
    exact sound.apart _ _ _ _ _ (waits open₁).2 _ _ _ _ _ (waits open₂).2
  case spent =>
    intro spent member
    rcases List.mem_cons.mp member with rfl | before
    · exact ⟨verified, cfg, asked⟩
    · exact sound.spent spent before
  case distinct =>
    refine List.pairwise_cons.mpr ⟨?_, sound.distinct⟩
    exact sound.unspent _ _ _ _ _ waiting
  case returned =>
    intro other cfg' found ended
    by_cases same : other = acceptance.session
    · rw [same, setServer_self] at ended
      simp only [Option.some.injEq, ServerSession.mk.injEq, ServerPhase.finished.injEq] at ended
      obtain ⟨rfl, ok⟩ := ended
      exact ⟨acceptance, List.mem_cons_self, same.symm, peer found ok, asked.pskId, asked.held⟩
    · rw [setServer_of_ne same] at ended
      obtain ⟨old, member, facts⟩ := sound.returned other cfg' found ended
      exact ⟨old, List.mem_cons_of_mem _ member, facts⟩

theorem origin_of_covers {answer : Answer} {acceptance : Acceptance} {pair : Bytes × Bytes}
    (sound : AnswerSound suite answer) (short : Short acceptance.hello acceptance.challenge)
    (read : nonces suite.base64 acceptance.hello acceptance.challenge = .ok pair)
    (tag : suite.base64.decode acceptance.response.macB64 =
      some (suite.hmac acceptance.psk (boundInput acceptance.hello acceptance.challenge pair)))
    (psk : answer.psk = acceptance.psk)
    (covers : answer.Covers suite (boundInput acceptance.hello acceptance.challenge pair)) :
    Origin suite answer acceptance := by
  obtain ⟨pair', answered, same⟩ := covers
  obtain ⟨-, server, sizes⟩ := nonces_eq_ok_iff.mp read
  obtain ⟨-, server', sizes'⟩ := nonces_eq_ok_iff.mp answered
  obtain ⟨rfl, cluster, node, -, pskId⟩ := boundInput_injective short sound.short sizes sizes' same
  obtain ⟨pair', computed, mac⟩ := computeResponse_eq_ok_iff.mp sound.computed
  obtain rfl : pair = pair' := Except.ok.inj (answered.symm.trans computed)
  constructor
  case clusterId => exact sound.own.1.symm.trans cluster.symm
  case nodeId => exact sound.own.2.symm.trans node.symm
  case pskId => exact pskId.symm
  case psk => rw [sound.held, psk]
  case serverNonce => exact server'.trans server.symm
  case tag => rw [mac, suite.base64.decode_encode, tag, same, psk]

structure WorldSound (suite : Suite) (known : Bytes → Prop) (world : World) : Prop where
  clients : ∀ id session, world.clients id = some session → ClientSound session
  answers : ∀ answer ∈ world.answered, AnswerSound suite answer
  servers : ServersSound suite world
  origins : ∀ acceptance ∈ world.accepted, ¬ known acceptance.psk →
    ∃ answer ∈ world.answered, Origin suite answer acceptance

theorem empty_sound : WorldSound suite known World.empty := by
  constructor
  case clients => exact nofun
  case answers => exact nofun
  case servers =>
    constructor
    case distinct => exact List.Pairwise.nil
    all_goals
      intros
      contradiction
  case origins => exact nofun

theorem setClient_self (id : Nat) (session : ClientSession) :
    (world.setClient id session).clients id = some session :=
  Function.update_self ..

theorem setClient_of_ne {id other : Nat} (differs : other ≠ id) (session : ClientSession) :
    (world.setClient id session).clients other = world.clients other :=
  Function.update_of_ne differs ..

theorem setClient_sound {id : Nat} {session : ClientSession} (made : ClientSound session)
    (clients : ∀ id session, world.clients id = some session → ClientSound session) :
    ∀ other found, (world.setClient id session).clients other = some found → ClientSound found := by
  intro other found present
  by_cases same : other = id
  · rw [same, setClient_self] at present
    exact Option.some.inj present ▸ made
  · rw [setClient_of_ne same] at present
    exact clients other found present

theorem move_sound {event : Event} {later : World} (move : Move suite world event later)
    (sound : WorldSound suite known world) (honest : Honest suite known world event) :
    WorldSound suite known later := by
  cases move with
  | stays => exact sound
  | client id session generated made grows =>
      have servers : ServersSound suite ({ world with generated }.setClient id session) :=
        sound.servers.quiet grows rfl (fun _ _ _ _ _ waits => waits) (fun _ _ _ ended => ended)
      exact ⟨setClient_sound made sound.clients, sound.answers, servers, sound.origins⟩
  | answers id session answer client made =>
      have servers : ServersSound suite
          ({ world with answered := answer :: world.answered }.setClient id session) :=
        sound.servers.quiet (List.Subset.refl _) rfl (fun _ _ _ _ _ waits => waits)
          (fun _ _ _ ended => ended)
      refine ⟨setClient_sound client sound.clients, ?_, servers, ?_⟩
      · exact List.forall_mem_cons.mpr ⟨made, sound.answers⟩
      · intro acceptance member secret
        obtain ⟨origin, known, facts⟩ := sound.origins acceptance member secret
        exact ⟨origin, List.mem_cons_of_mem _ known, facts⟩
  | server id session generated idle failed grows =>
      refine ⟨sound.clients, sound.answers, sound.servers.quiet grows rfl ?_ ?_, sound.origins⟩
      · intro other cfg hello challenge psk waits
        by_cases same : other = id
        · rw [Waits, same, setServer_self] at waits
          exact (idle hello challenge psk (by rw [Option.some.inj waits])).elim
        · rwa [Waits, setServer_of_ne same] at waits
      · intro other cfg peer ended
        by_cases same : other = id
        · rw [same, setServer_self] at ended
          exact (failed peer (by rw [Option.some.inj ended])).elim
        · rwa [setServer_of_ne same] at ended
  | challenges id input nonce up cfg hello challenge psk coded made =>
      exact ⟨sound.clients, sound.answers, sound.servers.challenges honest.2 coded made,
        sound.origins⟩
  | accepts id input nowMs up cfg acceptance result own waiting read verified peer =>
      subst own
      obtain ⟨-, -, pair, both, tag⟩ := verifyResponse_eq_ok_iff.mp verified
      have asked := sound.servers.waiting _ _ _ _ _ waiting
      refine ⟨sound.clients, sound.answers,
        sound.servers.accepts waiting ⟨pair, both, tag⟩ peer, ?_⟩
      refine List.forall_mem_cons.mpr ⟨?_, sound.origins⟩
      intro secret
      obtain ⟨answer, member, psk, covers⟩ := honest _ _ _ read tag secret
      exact ⟨answer, member,
        origin_of_covers (sound.answers answer member) asked.short both tag psk covers⟩

theorem run_sound (events : List Event)
    (honest : Meets (step suite) (Honest suite known) World.empty events) :
    WorldSound suite known (run (step suite) World.empty events).1 := by
  refine Machine.run_invariant_of (fun _ world => WorldSound suite known world) empty_sound ?_
    events honest
  intro past event world sound honest
  exact move_sound (step_moves sound.clients event) sound honest

theorem Acceptance.Verified.nonce_of_tag (injective : Function.Injective2 suite.hmac)
    {first second : Acceptance} (verified : first.Verified suite) (again : second.Verified suite)
    (short : Short first.hello first.challenge) (brief : Short second.hello second.challenge)
    (same : suite.base64.decode first.response.macB64 =
      suite.base64.decode second.response.macB64) :
    suite.base64.decode first.challenge.serverNonceB64 =
      suite.base64.decode second.challenge.serverNonceB64 := by
  obtain ⟨pair, read, tag⟩ := verified
  obtain ⟨pair', read', tag'⟩ := again
  rw [tag, tag', Option.some.injEq] at same
  obtain ⟨-, server, sizes⟩ := nonces_eq_ok_iff.mp read
  obtain ⟨-, server', sizes'⟩ := nonces_eq_ok_iff.mp read'
  obtain ⟨rfl, -⟩ := boundInput_injective short brief sizes sizes' (injective same).2
  exact server.trans server'.symm

theorem ServersSound.distinct_tags (sound : ServersSound suite world)
    (injective : Function.Injective2 suite.hmac) :
    world.accepted.Pairwise fun first second =>
      suite.base64.decode first.response.macB64 ≠ suite.base64.decode second.response.macB64 := by
  refine sound.distinct.imp_of_mem ?_
  intro first second one other differ same
  obtain ⟨verified, _, challenge⟩ := sound.spent first one
  obtain ⟨again, _, challenge'⟩ := sound.spent second other
  have nonces := verified.nonce_of_tag injective again challenge.short challenge'.short same
  obtain ⟨nonce, -, coded⟩ := challenge.drawn
  obtain ⟨nonce', -, coded'⟩ := challenge'.drawn
  rw [coded, coded', suite.base64.decode_encode, suite.base64.decode_encode,
    Option.some.injEq] at nonces
  exact differ (by rw [coded, coded', nonces])

def ServerSession.peer? (session : ServerSession) : Option LinkPeer :=
  match session.phase with
  | .finished (.ok peer) => some peer
  | _ => none

theorem finished_of_peer? {session : ServerSession} {peer : LinkPeer}
    (returned : session.peer? = some peer) : session = ⟨session.cfg, .finished (.ok peer)⟩ := by
  obtain ⟨cfg, phase⟩ := session
  match phase, returned with
  | .finished (.ok _), rfl => rfl

theorem server_handshake_authenticates (suite : Suite) (known : Bytes → Prop)
    (injective : Function.Injective2 suite.hmac) (events : List Event)
    (honest : Meets (step suite) (Honest suite known) World.empty events) :
    let world := (run (step suite) World.empty events).1
    (∀ id cfg peer, world.servers id = some ⟨cfg, .finished (.ok peer)⟩ →
      ∃ acceptance ∈ world.accepted, acceptance.session = id ∧ peer = acceptance.peer ∧
        acceptance.challenge.pskId = cfg.pskId ∧
        cfg.psks.lookup cfg.pskId = some acceptance.psk ∧
        (¬ known acceptance.psk → ∃ answer ∈ world.answered, Origin suite answer acceptance)) ∧
      world.accepted.Pairwise fun first second =>
        suite.base64.decode first.response.macB64 ≠
          suite.base64.decode second.response.macB64 := by
  have sound := run_sound events honest
  constructor
  case left =>
    intro id cfg peer ended
    obtain ⟨acceptance, member, session, same, pskId, held⟩ :=
      sound.servers.returned id cfg peer ended
    exact ⟨acceptance, member, session, same, pskId, held, sound.origins acceptance member⟩
  case right => exact sound.servers.distinct_tags injective

def Json.only {α : Type} {texts : α → List Text} [DecidableEq α] (message : α) (body : Bytes)
    (fits : ∀ text ∈ texts message, (Utf8.encode text).length ≤ body.length) : Json α texts where
  encode found := if found = message then body else (texts found).flatMap Utf8.encode
  decode found := if found = body then some message else none
  encode_length found text member := by
    by_cases same : found = message
    · rw [if_pos same]
      exact fits text (same ▸ member)
    · rw [if_neg same]
      obtain ⟨front, back, parts⟩ := List.append_of_mem member
      simp [parts]
      omega
  decode_length found other parsed text member := by
    by_cases same : found = body
    · rw [if_pos same, Option.some.injEq] at parsed
      rw [same]
      exact fits text (parsed ▸ member)
    · rw [if_neg same] at parsed
      cases parsed

def sampleOutcome : AuthOutcome := .accept "dmz-1".toList (some "1.5.0".toList)

def helloBody : Bytes :=
  [123, 34, 112, 114, 111, 116, 111, 99, 111, 108, 95, 118, 101, 114, 115, 105, 111, 110, 34,
    58, 34, 115, 116, 114, 97, 116, 97, 45, 108, 105, 110, 107, 47, 49, 46, 48, 34, 44, 34,
    99, 108, 117, 115, 116, 101, 114, 95, 105, 100, 34, 58, 34, 112, 114, 111, 100, 117, 99,
    116, 105, 111, 110, 34, 44, 34, 110, 111, 100, 101, 95, 105, 100, 34, 58, 34, 105, 110,
    116, 101, 114, 110, 97, 108, 45, 49, 34, 44, 34, 115, 111, 102, 116, 119, 97, 114, 101,
    95, 118, 101, 114, 115, 105, 111, 110, 34, 58, 34, 49, 46, 53, 46, 48, 34, 44, 34, 99,
    108, 105, 101, 110, 116, 95, 110, 111, 110, 99, 101, 95, 98, 54, 52, 34, 58, 34, 66, 119,
    99, 72, 66, 119, 99, 72, 66, 119, 99, 72, 66, 119, 99, 72, 66, 119, 99, 72, 66, 119, 99,
    72, 66, 119, 99, 72, 66, 119, 99, 72, 66, 119, 99, 72, 66, 119, 99, 72, 66, 119, 99, 61,
    34, 44, 34, 116, 105, 109, 101, 115, 116, 97, 109, 112, 95, 109, 115, 34, 58, 49, 55, 48,
    48, 48, 48, 48, 48, 48, 48, 48, 48, 48, 125]

def challengeBody : Bytes :=
  [123, 34, 115, 101, 114, 118, 101, 114, 95, 110, 111, 110, 99, 101, 95, 98, 54, 52, 34, 58,
    34, 67, 81, 107, 74, 67, 81, 107, 74, 67, 81, 107, 74, 67, 81, 107, 74, 67, 81, 107, 74,
    67, 81, 107, 74, 67, 81, 107, 74, 67, 81, 107, 74, 67, 81, 107, 74, 67, 81, 107, 74, 67,
    81, 107, 61, 34, 44, 34, 112, 115, 107, 95, 105, 100, 34, 58, 34, 99, 117, 114, 114, 101,
    110, 116, 34, 125]

def responseBody : Bytes :=
  [123, 34, 109, 97, 99, 95, 98, 54, 52, 34, 58, 34, 85, 108, 81, 89, 120, 110, 111, 101, 78,
    88, 51, 50, 89, 48, 122, 68, 49, 71, 81, 113, 65, 87, 122, 53, 48, 118, 106, 74, 82, 70,
    53, 110, 100, 115, 47, 84, 102, 81, 47, 87, 50, 66, 119, 61, 34, 125]

def outcomeBody : Bytes :=
  [123, 34, 111, 117, 116, 99, 111, 109, 101, 34, 58, 34, 97, 99, 99, 101, 112, 116, 34, 44,
    34, 108, 105, 110, 107, 95, 105, 100, 34, 58, 34, 100, 109, 122, 45, 49, 34, 44, 34, 115,
    111, 102, 116, 119, 97, 114, 101, 95, 118, 101, 114, 115, 105, 111, 110, 34, 58, 34, 49,
    46, 53, 46, 48, 34, 125]

def sampleSuite : Suite where
  hmac := sampleHmac
  base64 := Base64.standard
  hello := .only sampleHello helloBody (by decide +kernel)
  challenge := .only sampleChallenge challengeBody (by decide +kernel)
  response := .only sampleResponse responseBody (by decide +kernel)
  outcome := .only sampleOutcome outcomeBody (by decide +kernel)

def samplePsks : Tables.Table Text Bytes :=
  (∅ : Tables.Table Text Bytes).insert "current".toList samplePsk

def sampleClient : ClientHandshakeConfig where
  clusterId := "production".toList
  nodeId := "internal-1".toList
  softwareVersion := "1.5.0".toList
  psks := samplePsks

def sampleServer : ServerHandshakeConfig where
  pskId := "current".toList
  psks := samplePsks
  linkId := "dmz-1".toList
  softwareVersion := "1.5.0".toList

def samplePast : List Event :=
  [.clientStart 0 sampleClient (List.replicate 32 7) 1700000000000 true,
    .serverStart 0 sampleServer,
    .serverReadsHello 0 (Framing.field (sampleSuite.hello.encode sampleHello))
      (List.replicate 32 9) true,
    .clientReads 0 (Framing.field (sampleSuite.challenge.encode sampleChallenge)) true]

def sampleDelivery : Event :=
  .serverReadsResponse 0 (Framing.field (sampleSuite.response.encode sampleResponse))
    1700000030000 true

def sampleWorld : World := (run (step sampleSuite) World.empty samplePast).1

theorem sample_answered : sampleWorld.answered.map
    (fun answer => (answer.hello, answer.challenge, answer.psk)) =
      [(sampleHello, sampleChallenge, samplePsk)] := by
  decide +kernel

theorem sample_tag : sampleSuite.base64.decode sampleResponse.macB64 =
    some (sampleHmac samplePsk sampleInput) := by
  rw [sampleHmac_sample]
  decide +kernel

theorem sampleDelivery_honest : Honest sampleSuite (fun _ => False) sampleWorld sampleDelivery := by
  intro response psk message read tag _
  have sent : readFrame sampleSuite.response
      (Framing.field (sampleSuite.response.encode sampleResponse)) = .ok sampleResponse := by
    decide +kernel
  obtain rfl : sampleResponse = response := Except.ok.inj (sent.symm.trans read)
  have inputs := sampleHmac_injective (Option.some.inj (sample_tag.symm.trans tag))
  have logged : (sampleHello, sampleChallenge, samplePsk) ∈ sampleWorld.answered.map
      (fun answer => (answer.hello, answer.challenge, answer.psk)) := by
    rw [sample_answered]
    exact List.mem_singleton_self _
  obtain ⟨answer, member, same⟩ := List.mem_map.mp logged
  simp only [Prod.mk.injEq] at same
  refine ⟨answer, member, same.2.2.trans inputs.1, (List.replicate 32 7, List.replicate 32 9), ?_⟩
  rw [same.1, same.2.1]
  exact ⟨sample_nonces, inputs.2.symm⟩

theorem sampleEvents_honest : Meets (step sampleSuite) (Honest sampleSuite fun _ => False)
    World.empty (samplePast ++ [sampleDelivery]) := by
  rw [Machine.meets_concat]
  refine ⟨⟨?_, trivial, ?_, trivial, trivial⟩, sampleDelivery_honest⟩
  · exact ⟨rfl, List.not_mem_nil⟩
  · refine ⟨rfl, ?_⟩
    decide +kernel

theorem server_handshake_authenticates_sample :
    ∃ acceptance answer, acceptance.peer =
      ⟨"production".toList, "internal-1".toList, "1.5.0".toList⟩ ∧
      Origin sampleSuite answer acceptance := by
  have returned : ((run (step sampleSuite) World.empty
      (samplePast ++ [sampleDelivery])).1.servers 0).bind ServerSession.peer? =
        some ⟨"production".toList, "internal-1".toList, "1.5.0".toList⟩ := by
    decide +kernel
  obtain ⟨session, found, peer⟩ := Option.bind_eq_some_iff.mp returned
  rw [finished_of_peer? peer] at found
  have authentic := server_handshake_authenticates sampleSuite (fun _ => False)
    sampleHmac_injective (samplePast ++ [sampleDelivery]) sampleEvents_honest
  obtain ⟨acceptance, -, -, same, -, -, origin⟩ := authentic.1 0 session.cfg _ found
  obtain ⟨answer, -, facts⟩ := origin id
  exact ⟨acceptance, answer, same.symm, facts⟩

end Strata.Link
