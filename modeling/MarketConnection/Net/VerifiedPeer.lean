import MarketConnection.Net.Process

/-!
# Net/VerifiedPeer — whom a request is written to

The constructor makes the stream before it configures the context, and the stream keeps the verify
mode it was made with: `none`, for every object (`Dialogue.verifyMode_eq`).  So a handshake fails
only when the network fails it, and the request goes out to whoever presented a chain
(`Dialogue.matched`): **the peers are verified exactly when the network only lets verified ones
answer** (`sent_trusted_iff`).
-/

namespace Twelvedata

variable {platform : Platform} {target : StdString}

/-- The stream is made from a context in its default state; the constructor's body leaves it. -/
theorem stream_construct (platform : Platform) (setup : Setup) :
    (GenericRestRequest.construct platform setup).object.stream = .ofContext {} := by
  obtain ⟨paths, mode, _ | err⟩ := setup <;> rfl

/-- **No stream verifies its peer.** -/
theorem Dialogue.verifyMode_eq {stage : Option Stage} {e : Exchange}
    (h : Dialogue platform target stage e) : e.object.stream.verifyMode = .none := by
  induction h with
  | opened n => exact congrArg SslStream.verifyMode (stream_construct platform (platform.setup n))
  | @advance stage e c h ih => rcases stage <;> exact ih

/-- Without verification a handshake ends as the network ends it. -/
theorem handshake_of_mode_none {verifies : CertificateChain → Bool} {c : Completion}
    {stream : SslStream} (hmode : stream.verifyMode = .none) :
    stream.handshake verifies c
      = (c.ec, { stream with session := if c.ec.failed then none else some c.chain }) := by
  simp [SslStream.handshake, hmode]

/-- A request goes out to a peer exactly when a handshake with its chain went through. -/
def Matched (trace : List Event) : Prop :=
  ∀ chain, (∃ request, Event.sent request chain ∈ trace) ↔
    ∃ answer ec, Event.completed .handshake answer ec ∈ trace ∧ answer.ec.failed = false ∧
      answer.chain = chain

theorem Matched.append {a b : List Event} (ha : Matched a) (hb : Matched b) : Matched (a ++ b) := by
  intro chain
  simp only [List.mem_append, exists_or, or_and_right]
  exact or_congr (ha chain) (hb chain)

/-- Events that have nothing to do with a peer. -/
theorem matched_of_forall {events : List Event} (hsent : ∀ request chain,
      Event.sent request chain ∉ events)
    (hdone : ∀ answer ec, Event.completed .handshake answer ec ∉ events) : Matched events :=
  fun chain => iff_of_false (fun ⟨request, h⟩ => hsent request chain h)
    fun ⟨answer, ec, h, _⟩ => hdone answer ec h

theorem matched_cerr (lines : List StdString) : Matched (lines.map .cerr) :=
  matched_of_forall (by simp) (by simp)

/-- The turn a handshake takes writes the request to the peer, if there is one. -/
theorem turn_handshake (platform : Platform) (target : StdString) {e : Exchange}
    (hmode : e.object.stream.verifyMode = .none) (c : Completion) :
    ∃ (lines : List StdString) (request : HttpRequest), e.turn platform target .handshake c
      = .completed .handshake c c.ec :: (lines.map .cerr ++ .started (.write request)
        :: if c.ec.failed then [] else [.sent request c.chain]) := by
  refine ⟨handleError c.ec Stage.handshake.complaint,
    { e.object.httpRequest with target := target }, ?_⟩
  rw [Exchange.turn, GenericRestRequest.answer, handshake_of_mode_none hmode]
  by_cases hf : c.ec.failed = true
  · rw [if_pos hf, if_pos hf]
    rfl
  · rw [if_neg hf, if_neg hf]
    rfl

theorem matched_turn {stage : Stage} {e : Exchange} (hmode : e.object.stream.verifyMode = .none)
    (c : Completion) : Matched (e.turn platform target stage c) := by
  rcases stage with _ | _ | _ | _ | _
  case handshake =>
    intro chain
    obtain ⟨lines, request, hturn⟩ := turn_handshake platform target hmode c
    rw [hturn]
    by_cases hf : c.ec.failed = true
    · simp [hf]
    · simpa [hf] using eq_comm
  all_goals
    exact matched_of_forall (by simp [Exchange.turn, GenericRestRequest.sequel])
      (by simp [Exchange.turn, GenericRestRequest.sequel])

/-- **A request goes out to whoever a handshake went through with.** -/
theorem Dialogue.matched {stage : Option Stage} {e : Exchange}
    (h : Dialogue platform target stage e) : Matched e.trace :=
  h.trace_induction (fun _ _ => Matched.append) matched_cerr
    (matched_of_forall (by simp) (by simp)) fun _ c _ hd => matched_turn hd.verifyMode_eq c

/-- **Only peers that verify are written to exactly when the network completes handshakes with no
others**, in every state of every run. -/
theorem sent_trusted_iff {S F ν : Type} {invoke : F → Json → Invocation S F ν}
    {p : Process S F ν} (h : Reachable platform invoke (fun _ => True) p) :
    ∀ e ∈ p.state.exchanges,
      (∀ request chain, Event.sent request chain ∈ e.trace → platform.trusted chain = true) ↔
        ∀ answer ec, Event.completed .handshake answer ec ∈ e.trace → answer.ec.failed = false →
          platform.trusted answer.chain = true := by
  intro e he
  obtain ⟨target, stage, hd⟩ := (h.sound fun _ _ _ _ => trivial).dialogue e he
  constructor
  · intro hsent answer ec hdone hok
    obtain ⟨request, hmem⟩ := (hd.matched answer.chain).mpr ⟨answer, ec, hdone, hok, rfl⟩
    exact hsent request _ hmem
  · intro hdone request chain hmem
    obtain ⟨answer, ec, hcompleted, hok, rfl⟩ := (hd.matched chain).mp ⟨request, hmem⟩
    exact hdone answer ec hcompleted hok

/-- The chain of a server that the trust store knows, and of one that it does not. -/
def serverChain : CertificateChain := ⟨["api.twelvedata.com".toList, "Root CA".toList]⟩

def selfSigned : CertificateChain := ⟨["api.twelvedata.com".toList]⟩

/-- The chain the answer to a handshake presents. -/
def Event.presented : Event → Option CertificateChain
  | completed .handshake answer _ => some answer.chain
  | _ => none

theorem sent_trusted_server :
    ∃ e, (sentOne fun _ => { chain := serverChain }).state.exchanges = [e] ∧
      ∀ request chain, Event.sent request chain ∈ e.trace →
        Platform.sample.trusted chain = true := by
  refine ⟨_, rfl, (sent_trusted_iff (reachable_sentOne fun _ => { chain := serverChain }) _
    List.mem_cons_self).mpr ?_⟩
  have hchains : ∀ e ∈ (sentOne fun _ => { chain := serverChain }).state.exchanges,
      ∀ event ∈ e.trace, event.presented.all Platform.sample.trusted = true := by decide
  exact fun answer ec hmem _ => hchains _ List.mem_cons_self _ hmem

/-- The request, key and all, goes out to a server with a certificate of its own making. -/
theorem sent_untrusted_selfSigned :
    ¬ ∀ p : Process Unit Unit Unit, Reachable Platform.sample (fun _ _ => {}) (fun _ => True) p →
      ∀ e ∈ p.state.exchanges, ∀ request chain, Event.sent request chain ∈ e.trace →
        Platform.sample.trusted chain = true := by
  intro h
  have hsent : ∃ e ∈ (sentOne fun _ => { chain := selfSigned }).state.exchanges,
      Event.sent e.object.httpRequest selfSigned ∈ e.trace := by decide
  obtain ⟨e, he, hmem⟩ := hsent
  exact absurd (h _ (reachable_sentOne fun _ => { chain := selfSigned }) e he _ _ hmem)
    (by decide)

end Twelvedata
