import QubicBob.Network.RequestThread
import QubicBob.Network.TickExchange

set_option autoImplicit false

/-! # Fetching ticks from other nodes

The node with its requester. A request goes out with flags that may have been read some time before,
and its answer comes in packet by packet, while the other threads go on.

Two facts do the work. What the requester has seen stays true while the tick is exchanged: its flags
say that a vote or a transaction is stored, and these only grow (`Sound`, `Exchanging`). And a
request is made of what it has seen: what is not flagged is in the answer, and what is flagged is
stored. The answer may come at any time and in any order; each packet of it, at the step where it
comes in, finds a database that has no less than at the time of the request. This needs a node that
still takes the packets, so the tick is not yet an old one, and a request whose tick is that of its
flags: the thread reads `gCurrentFetchingTick` once for each of them.
-/

namespace QubicBob

open FlagBytes

/-! ## The system -/

structure TickSync where
  node : TickNode
  requester : TickRequester
  /-- the requests sent, with the phases they were made in -/
  sent : List (RequestPhase × TickRequest)

inductive TickSyncStep where
  | node (st : TickNodeStep)
  /-- a step of the requester; a request goes to one connection for each dejavu -/
  | request (hasVtick : BitVec 32 → Bool) (up due : Bool) (dejavus : List (BitVec 32))
  /-- the verifier asks for more votes of a tick -/
  | refetch (tick : Int)

namespace TickSync

variable (s : TickSync)

def view (hasVtick : BitVec 32 → Bool) (up due : Bool) : RequestView where
  K := s.node.peer.env.K
  ticks := s.node.ticks
  hasVtick := hasVtick
  up := up
  gCurrentFetchingTick := s.node.tick
  gCurrentVerifyLoggingTick := s.node.peer.env.receiver.gCurrentVerifyLoggingTick
  due := due

/-- `sendToMany`. -/
def send (request : TickRequest) (dejavus : List (BitVec 32)) : TickSync :=
  let packets := dejavus.map fun dejavu =>
    enqueueWithHeader dejavu.toNat request.type request.bytes
  { s with
    node := { s.node with peer := packets.foldl (PeerNode.enqueueSend false) s.node.peer }
    sent := (s.requester.phase, request) :: s.sent }

def step : TickSyncStep → TickSync
  | .node .restart =>
      { s with
        node := s.node.step .restart
        requester := { futureOffset := s.requester.futureOffset } }
  | .node st => { s with node := s.node.step st }
  | .request hasVtick up due dejavus =>
      let r := s.requester.step (s.view hasVtick up due)
      match r.1 with
      | none => { s with requester := r.2 }
      | some request => { s.send request dejavus with requester := r.2 }
  | .refetch tick => { s with requester := { s.requester with refetchTickVotes := tick } }

theorem step_peer (st : PeerStep) :
    (s.step (.node (.peer st))).node.peer = s.node.peer.step st := by
  rw [step]
  · rfl
  · nofun

/-! ## While a tick is exchanged -/

variable (R : Receiver) (t : BitVec 32) (P : m256i → Prop)

/-- The epoch and the computors stay, the tick is not an old one yet, and the cleaner leaves it and
the transactions in `P` alone. -/
def Ok : TickSyncStep → Prop
  | .node (.peer (.progress R')) => R'.SameKeys R ∧ ¬ t < R'.gCurrentVerifyLoggingTick - 1
  | .node (.cleanRawTick tick) => tick ≠ t
  | .node (.cleanTransaction hash) => ∀ d, P d →
      hash ≠ getIdentityFromPublicKey s.node.peer.env.K d true
  | _ => True

/-- The vote, if it is of the tick, is stored. -/
def HasVote (tv : TickVote) : Prop :=
  tv.tick = t → dbGetTickVote s.node.ticks tv.tick tv.computorIndex = some tv

/-- The transaction, if it is one of `P`, is stored. -/
def HasTransaction (d : m256i) : Prop :=
  P d → dbCheckTransactionExist s.node.ticks (getIdentityFromPublicKey s.node.peer.env.K d true) =
    true

structure Exchanging : Prop where
  keys : s.node.peer.env.receiver.SameKeys R
  fresh : ¬ t < s.node.peer.env.receiver.gCurrentVerifyLoggingTick - 1
  sized : VotesSized t s.node.ticks
  phase : s.requester.phase.Sound (s.HasVote t) (s.HasTransaction P)
  sent : ∀ x ∈ s.sent, x.1.Sound (s.HasVote t) (s.HasTransaction P) ∧
    ∃ v r, r.phase = x.1 ∧ (TickRequester.step v r).1 = some x.2

end TickSync

section exchange

variable {R : Receiver} {t : BitVec 32} {P : m256i → Prop} {s : TickSync}

/-- The hash and the check of signatures stay. -/
theorem PeerNode.step_hashes (s : PeerNode) (st : PeerStep) :
    (s.step st).env.K = s.env.K ∧ (s.step st).env.verify = s.env.verify := by
  cases st with
  | data trusted k packet =>
      rw [PeerNode.step]
      split
      · exact ⟨rfl, rfl⟩
      · exact ⟨rfl, rfl⟩
  | request trusted conn packet x rnd stale =>
      rw [PeerNode.step]
      split
      · dsimp only
        split
        · exact ⟨rfl, rfl⟩
        · rw [(s.sendReplies_frame _ _ _ _ _).1]
          exact ⟨rfl, rfl⟩
      · exact ⟨rfl, rfl⟩
  | ownPacket packet =>
      rw [PeerNode.step, (PeerNode.enqueueSend_frame false s packet).1]
      exact ⟨rfl, rfl⟩
  | _ => exact ⟨rfl, rfl⟩

/-- A transaction that is there stays unless it is cleaned. -/
theorem TicksChange.hasTransaction {db db' : TickKeyDB} (h : TicksChange R db db')
    {hash : List Char} (hhas : db.hasTransaction hash = true) : db'.hasTransaction hash = true := by
  cases h with
  | unchanged => exact hhas
  | vote v =>
      rcases processTickVote_cases R db v with hsame | ⟨-, -, -, hinsert⟩
      · rw [hsame]
        exact hhas
      · rw [hinsert, dbInsertTickVote]
        split
        · exact hhas
        · exact hhas
  | data td =>
      rcases processTickData_cases R db td with hsame | ⟨-, -, -, hinsert⟩
      · rw [hsame]
        exact hhas
      · rw [hinsert]
        exact hhas
  | transaction new =>
      change (hash == new || db.hasTransaction hash) = true
      rw [hhas, Bool.or_true]

theorem hasTransaction_verifyQuorum {K : KangarooTwelve} {epoch : BitVec 16} {tick : BitVec 32}
    {cache : QuorumCache} {db : TickKeyDB} :
    (verifyQuorum K epoch db tick cache).db.hasTransaction = db.hasTransaction := by
  unfold verifyQuorum verifyQuorumWith
  dsimp only
  split
  · rfl
  split
  · rfl
  split
  · rfl
  unfold verifyTickData
  split
  · rfl
  dsimp only
  split
  · rfl
  split
  · rfl
  · rfl

/-- What the steps of the node do to a tick that is exchanged. -/
structure NodeGrows (R : Receiver) (t : BitVec 32) (P : m256i → Prop) (a b : TickNode) : Prop where
  keys : b.peer.env.receiver.SameKeys R
  fresh : ¬ t < b.peer.env.receiver.gCurrentVerifyLoggingTick - 1
  hashes : b.peer.env.K = a.peer.env.K ∧ b.peer.env.verify = a.peer.env.verify
  votes : VotesGrow t a.ticks b.ticks
  transactions : ∀ d, P d →
    a.ticks.hasTransaction (getIdentityFromPublicKey a.peer.env.K d true) = true →
      b.ticks.hasTransaction (getIdentityFromPublicKey a.peer.env.K d true) = true

theorem NodeGrows.trans {a b c : TickNode} (h : NodeGrows R t P a b) (h' : NodeGrows R t P b c) :
    NodeGrows R t P a c := by
  refine ⟨h'.keys, h'.fresh, ⟨h'.hashes.1.trans h.hashes.1, h'.hashes.2.trans h.hashes.2⟩,
    h.votes.trans h'.votes, fun d hP hd => ?_⟩
  have hb := h.transactions d hP hd
  rw [← h.hashes.1] at hb ⊢
  exact h'.transactions d hP hb

theorem nodeGrows_refl (h : s.Exchanging R t P) : NodeGrows R t P s.node s.node :=
  ⟨h.keys, h.fresh, ⟨rfl, rfl⟩, .refl _ _, fun _ _ hd => hd⟩

theorem nodeGrows_step (h : s.Exchanging R t P) (st : TickNodeStep) (hok : s.Ok R t P (.node st)) :
    NodeGrows R t P s.node (s.node.step st) := by
  cases st with
  | peer st =>
      have hreceiver : (s.node.peer.step st).env.receiver.SameKeys R ∧
          ¬ t < (s.node.peer.step st).env.receiver.gCurrentVerifyLoggingTick - 1 := by
        rcases s.node.peer.step_receiver st with hsame | ⟨R', rfl, hnew⟩
        · rw [hsame]
          exact ⟨h.keys, h.fresh⟩
        · exact hok
      exact ⟨hreceiver.1, hreceiver.2, s.node.peer.step_hashes st,
        (s.node.peer.step_ticks st).votesGrow,
        fun d _ hd => (s.node.peer.step_ticks st).hasTransaction hd⟩
  | verify updated =>
      obtain ⟨henv, hticks, -, -⟩ := s.node.verify_frame updated
      rw [TickNode.step]
      refine ⟨?_, ?_, ?_, .of_eq ?_, fun d _ hd => ?_⟩
      · rw [henv]
        exact h.keys
      · rw [henv]
        exact h.fresh
      · rw [henv]
        exact ⟨rfl, rfl⟩
      · rw [hticks, TickNode.outcome, tickVote_verifyQuorum]
      · rw [hticks, TickNode.outcome, hasTransaction_verifyQuorum]
        exact hd
  | cleanRawTick tick =>
      exact ⟨h.keys, h.fresh, ⟨rfl, rfl⟩, votesGrow_node s.node _ fun heq =>
        hok (TickNodeStep.cleanRawTick.inj heq), fun d _ hd => hd⟩
  | cleanTransaction hash =>
      refine ⟨h.keys, h.fresh, ⟨rfl, rfl⟩, .of_eq rfl, fun d hd hhas => ?_⟩
      have hne := hok d hd
      change (getIdentityFromPublicKey s.node.peer.env.K d true != hash && _) = true
      rw [hhas, Bool.and_true, bne_iff_ne]
      exact hne.symm
  | restart => exact ⟨h.keys, h.fresh, ⟨rfl, rfl⟩, .refl _ _, fun d _ hd => hd⟩

theorem nodeGrows_send (h : s.Exchanging R t P) (request : TickRequest)
    (dejavus : List (BitVec 32)) : NodeGrows R t P s.node (s.send request dejavus).node := by
  obtain ⟨henv, hdb, -, -⟩ := PeerNode.foldl_enqueueSend_frame false
    (dejavus.map fun dejavu => enqueueWithHeader dejavu.toNat request.type request.bytes)
    s.node.peer
  refine ⟨?_, ?_, ?_, .of_eq ?_, fun d _ hd => ?_⟩
  · rw [TickSync.send, henv]
    exact h.keys
  · rw [TickSync.send, henv]
    exact h.fresh
  · rw [TickSync.send, henv]
    exact ⟨rfl, rfl⟩
  · rw [TickSync.send, TickNode.ticks, hdb]
    rfl
  · rw [TickSync.send, TickNode.ticks, hdb]
    exact hd

/-- Where the node has grown, what was sound still is. -/
theorem TickSync.Exchanging.grow {s' : TickSync} (h : s.Exchanging R t P)
    (hgrow : NodeGrows R t P s.node s'.node)
    (hphase : s'.requester.phase.Sound (s.HasVote t) (s.HasTransaction P))
    (hsent : ∀ x ∈ s'.sent, x ∈ s.sent ∨ (x.1.Sound (s.HasVote t) (s.HasTransaction P) ∧
      ∃ v r, r.phase = x.1 ∧ (TickRequester.step v r).1 = some x.2)) : s'.Exchanging R t P := by
  have hvote : ∀ tv, s.HasVote t tv → s'.HasVote t tv := by
    rintro tv hv rfl
    exact hgrow.votes.keeps (hv rfl)
  have htransaction : ∀ d, s.HasTransaction P d → s'.HasTransaction P d := by
    intro d hd hP
    rw [dbCheckTransactionExist, hgrow.hashes.1]
    exact hgrow.transactions d hP (hd hP)
  refine ⟨hgrow.keys, hgrow.fresh, hgrow.votes.sized h.sized, hphase.mono hvote htransaction,
    fun x hx => ?_⟩
  rcases hsent x hx with hold | ⟨hsound, hasked⟩
  · exact ⟨(h.sent x hold).1.mono hvote htransaction, (h.sent x hold).2⟩
  · exact ⟨hsound.mono hvote htransaction, hasked⟩

theorem TickSync.Exchanging.step (h : s.Exchanging R t P) (st : TickSyncStep)
    (hok : s.Ok R t P st) :
    (s.step st).Exchanging R t P ∧ NodeGrows R t P s.node (s.step st).node := by
  cases st with
  | node st =>
      have hgrow := nodeGrows_step h st hok
      have hsame : TickSync.Exchanging { s with node := s.node.step st } R t P :=
        h.grow hgrow h.phase fun x hx => .inl hx
      by_cases hrestart : st = .restart
      · subst hrestart
        have hnode := nodeGrows_refl hsame
        rw [TickSync.step]
        exact ⟨hsame.grow hnode trivial fun x hx => .inl hx, hgrow⟩
      · rw [TickSync.step]
        · exact ⟨hsame, hgrow⟩
        · exact hrestart
  | request hasVtick up due dejavus =>
      have hsound := @TickRequester.step_sound (s.HasVote t) (s.HasTransaction P)
        (s.view hasVtick up due) s.requester (fun tv htv _ => htv) (fun d hd _ => hd) h.phase
      rw [TickSync.step]
      dsimp only
      split
      · exact ⟨h.grow (nodeGrows_refl h) hsound fun x hx => .inl hx, nodeGrows_refl h⟩
      · next request hrequest =>
        have hgrow := nodeGrows_send h request dejavus
        refine ⟨h.grow hgrow hsound fun x hx => ?_, hgrow⟩
        rcases List.mem_cons.mp hx with rfl | hold
        · exact .inr ⟨h.phase, _, s.requester, rfl, hrequest⟩
        · exact .inl hold
  | refetch tick =>
      have hgrow := nodeGrows_refl h
      rw [TickSync.step]
      exact ⟨h.grow hgrow h.phase fun x hx => .inl hx, hgrow⟩

theorem TickSync.exchanging_of_run (h : s.Exchanging R t P) {steps : List TickSyncStep}
    (hok : Runs.Guarded TickSync.step (fun s st => s.Ok R t P st) s steps) :
    (Runs.run TickSync.step s steps).Exchanging R t P ∧
      NodeGrows R t P s.node (Runs.run TickSync.step s steps).node :=
  @Runs.run_invariant _ _ TickSync.step (fun s st => s.Ok R t P st)
    (fun s' => s'.Exchanging R t P ∧ NodeGrows R t P s.node s'.node)
    (fun _ st h' hst => ⟨(h'.1.step st hst).1, h'.2.trans (h'.1.step st hst).2⟩) s steps
    ⟨h, nodeGrows_refl h⟩ hok

/-! ## Answers -/

/-- The packets of an answer have all come to the data threads. -/
def Answered (answer : List Send) (steps : List TickSyncStep) : Prop :=
  ∀ x ∈ answer, ∃ trusted k, TickSyncStep.node (.peer (.data trusted k x.packet)) ∈ steps

/-- What a step of the run leaves behind the rest of the run keeps. -/
theorem TickSync.node_of_mem {ok : TickSync → TickSyncStep → Prop} {steps : List TickSyncStep}
    {st : TickSyncStep} (h : s.Exchanging R t P) (hle : ∀ s st, ok s st → s.Ok R t P st)
    (hok : Runs.Guarded TickSync.step ok s steps) (hst : st ∈ steps) {Q : TickNode → Prop}
    (hstep : ∀ s', s'.Exchanging R t P → NodeGrows R t P s.node s'.node → ok s' st →
      Q (s'.step st).node)
    (hkeep : ∀ a b, NodeGrows R t P a b → Q a → Q b) :
    Q (Runs.run TickSync.step s steps).node := by
  obtain ⟨before, after, rfl⟩ := List.append_of_mem hst
  obtain ⟨hbefore, hrest⟩ := Runs.guarded_append.mp hok
  obtain ⟨hmid, hgrow⟩ := TickSync.exchanging_of_run h (hbefore.mono hle)
  obtain ⟨hnext, -⟩ := hmid.step st (hle _ _ hrest.1)
  rw [Runs.run_append, Runs.run_cons]
  exact hkeep _ _ (TickSync.exchanging_of_run hnext (hrest.2.mono hle)).2
    (hstep _ hmid hgrow hrest.1)

/-- The answer comes in at once. -/
def delivered (answer : List Send) : List TickSyncStep :=
  answer.map fun x => .node (.peer (.data true 0 x.packet))

theorem answered_delivered (answer : List Send) : Answered answer (delivered answer) :=
  fun x hx => ⟨true, 0, List.mem_map.mpr ⟨x, hx, rfl⟩⟩

theorem guarded_delivered (s : TickSync) (answer : List Send) :
    Runs.Guarded TickSync.step (fun s st => s.Ok R t P st) s (delivered answer) := by
  induction answer generalizing s with
  | nil => exact trivial
  | cons x answer ih => exact ⟨trivial, ih _⟩

/-- A node at tick 10 that has sent one request. -/
def requestedTen (ticks : TickKeyDB) (phase : RequestPhase) (request : TickRequest) : TickSync where
  node := nodeAtTen hashSeven ticks
  requester := { futureOffset := 1 }
  sent := [(phase, request)]

theorem exchanging_requestedTen {ticks : TickKeyDB} {phase : RequestPhase} {request : TickRequest}
    (hticks : VotesSized 10 ticks)
    (hsound : phase.Sound ((requestedTen ticks phase request).HasVote 10)
      ((requestedTen ticks phase request).HasTransaction P))
    (hasked : ∃ v r, r.phase = phase ∧ (TickRequester.step v r).1 = some request) :
    (requestedTen ticks phase request).Exchanging firstEpoch 10 P := by
  have hfresh : ¬ (10 : BitVec 32) < firstEpoch.gCurrentVerifyLoggingTick - 1 := by decide
  refine ⟨⟨rfl, rfl, rfl⟩, hfresh, hticks, trivial, fun x hx => ?_⟩
  obtain rfl := List.mem_singleton.mp hx
  exact ⟨hsound, hasked⟩

theorem TickRequester.quorum_of_step {v : RequestView} {r : TickRequester} {job : VoteJob}
    {rqt tick : BitVec 32} {tvs : List TickVote} {request : TickRequest}
    (hphase : r.phase = .askVotes job rqt tick tvs)
    (h : (TickRequester.step v r).1 = some request) :
    request = .RequestedQuorumTick rqt (voteFlags tvs) := by
  rw [TickRequester.step, hphase] at h
  dsimp only at h
  cases job with
  | refetch => exact (Option.some.inj (Option.ite_none_right_eq_some.mp h).2).symm
  | offset k have_next_td => exact (Option.some.inj (Option.ite_none_right_eq_some.mp h).2).symm

/-- Once the answer to a request for votes has come in, the node has a vote of every computor of which
the other node had one, and the votes it had are as they were. -/
theorem votes_exchanged {S : Serving} {conn : Conn} {dejavu rnd : Nat} {stale : List Byte}
    {job : VoteJob} {tvs : List TickVote} {request : TickRequest} {steps : List TickSyncStep}
    (h : s.Exchanging R t P) (hsent : (.askVotes job t t tvs, request) ∈ s.sent)
    (hS : t.toNat < S.gCurrentVerifyLoggingTick)
    (hok : Runs.Guarded TickSync.step (fun s st => s.Ok R t P st) s steps)
    (hanswer : Answered (replyTickVotes S conn dejavu rnd (request.bytes ++ stale)) steps) :
    let node := (Runs.run TickSync.step s steps).node
    (∀ tv ∈ S.tryGetTickVote t.toNat, tv.tick = t → tv.epoch ≠ 0 → R.Accepts tv →
      tv.computorIndex.toNat < NUMBER_OF_COMPUTORS →
        ∃ v, dbGetTickVote node.ticks t tv.computorIndex = some v) ∧
      ∀ i v, dbGetTickVote s.node.ticks t i = some v → dbGetTickVote node.ticks t i = some v := by
  obtain ⟨hend, hgrow⟩ := TickSync.exchanging_of_run h hok
  refine ⟨?_, fun i v hv => hgrow.votes.keeps hv⟩
  rintro tv htv rfl hepoch haccepts hindex
  obtain ⟨hsound, v, r, hphase, hasked⟩ := h.sent _ hsent
  obtain rfl := TickRequester.quorum_of_step hphase hasked
  have hflag := flagAt_quorum tv.tick tvs (fun tv' h' => (hsound tv' h').2.1) stale hindex
  by_cases hflagged : ∃ tv' ∈ tvs, tv'.computorIndex.toNat = tv.computorIndex.toNat
  · obtain ⟨tv', htv', hsame⟩ := hflagged
    obtain ⟨htick, -, hhas⟩ := hsound tv' htv'
    refine ⟨tv', hgrow.votes.keeps ?_⟩
    rw [← BitVec.eq_of_toNat_eq hsame, ← htick]
    exact hhas htick
  · rw [decide_eq_false hflagged] at hflag
    obtain ⟨trusted, k, hst⟩ := hanswer _ (mem_replyTickVotes (by rw [readLE_quorum]; omega)
      (by rw [readLE_quorum]; exact htv) hepoch (by rw [readLE_quorum]) hflag)
    have hstored : ∀ s' : TickSync, s'.Exchanging R tv.tick P → ∃ v,
        dbGetTickVote (s'.step (.node (.peer (.data trusted k
          (reply conn dejavu BROADCAST_TICK_VOTE tv.bytes).packet)))).node.ticks tv.tick
            tv.computorIndex = some v := by
      intro s' h'
      have htaken := processTickVote_accepted (h'.keys.accepts.mpr haccepts) h'.fresh s'.node.ticks
      obtain ⟨v, hv⟩ := exists_vote_insert h'.sized
      refine ⟨v, ?_⟩
      rw [← hv, ← htaken]
      exact congrArg (dbGetTickVote · tv.tick tv.computorIndex)
        (s'.node.peer.step_vote trusted k conn dejavu tv)
    exact @TickSync.node_of_mem R tv.tick P s _ steps _ h (fun _ _ hst => hst) hok hst
      (fun node => ∃ v, dbGetTickVote node.ticks tv.tick tv.computorIndex = some v)
      (fun s' h' _ _ => hstored s' h') fun a b hab ⟨v, hv⟩ => ⟨v, hab.votes.keeps hv⟩

/-- What a requester sees that has nothing. -/
def bareView : RequestView where
  K := hashSeven
  ticks := emptyNode.db.ticks
  hasVtick := fun _ => false
  up := true
  gCurrentFetchingTick := 10
  gCurrentVerifyLoggingTick := 10
  due := true

def voteOfTen : TickVote := { TickVote.zero with tick := 10, epoch := 1, computorIndex := 5 }

/-- A peer with one vote of tick 10, and one transaction. -/
def servingTen (td : TickData) (tx : List Byte) : Serving :=
  { RequestThread.emptyServing with
    K := hashSeven
    gCurrentVerifyLoggingTick := 11
    tryGetTickVote := fun _ => [voteOfTen]
    tryGetTickData := fun _ => some td
    tryGetTransaction := fun _ => some tx }

/-- A node without votes has asked for those of tick 10, and gets the one of computor 5. -/
theorem votes_exchanged_ten :
    let request := TickRequest.RequestedQuorumTick 10 (voteFlags [])
    let answer := replyTickVotes (servingTen .zero []) 7 1 0 (request.bytes ++ [])
    let s := requestedTen emptyNode.db.ticks (.askVotes .refetch 10 10 []) request
    ∃ v, dbGetTickVote (Runs.run TickSync.step s (delivered answer)).node.ticks 10 5 = some v := by
  have h : (requestedTen emptyNode.db.ticks (.askVotes .refetch 10 10 [])
      (.RequestedQuorumTick 10 (voteFlags []))).Exchanging firstEpoch 10 fun _ => False :=
    exchanging_requestedTen (fun i => nofun) (fun tv htv => absurd htv List.not_mem_nil)
      ⟨bareView, { futureOffset := 1, phase := .askVotes .refetch 10 10 [] }, rfl, rfl⟩
  exact (votes_exchanged h List.mem_cons_self (show (10 : BitVec 32).toNat <
    (servingTen .zero []).gCurrentVerifyLoggingTick by decide) (guarded_delivered _ _)
    (answered_delivered _)).1 voteOfTen List.mem_cons_self rfl (by decide) ⟨rfl, rfl⟩ (by decide)

/-- The transactions of the tick data. -/
def TickData.Lists (td : TickData) (d : m256i) : Prop :=
  d ≠ m256i.zero ∧ ∃ i, td.transactionDigests i = d

theorem TickData.Lists.listedIn {td : TickData} {d : m256i} (h : td.Lists d) :
    listedIn td d = true := by
  obtain ⟨hne, i, rfl⟩ := h
  refine List.any_eq_true.mpr ⟨i, List.mem_finRange i, ?_⟩
  rw [decide_eq_true hne, decide_eq_true rfl]
  rfl

theorem TickRequester.transactions_of_step {v : RequestView} {r : TickRequester} {k i count : Nat}
    {td : TickData} {rtt : BitVec 32} {flag : List Byte} {request : TickRequest}
    (hphase : r.phase = .flags k td rtt i flag count)
    (h : (TickRequester.step v r).1 = some request) :
    request = .RequestedTickTransactions rtt flag := by
  rw [TickRequester.step, hphase] at h
  dsimp only at h
  split at h
  · split at h
    · cases h
    split at h
    · cases h
    · cases h
  · exact (Option.some.inj (Option.ite_none_right_eq_some.mp h).2).symm

theorem DataReceiver.TakesTransaction.congr {D D' : DataReceiver} {d : m256i} {tx : List Byte}
    (h : D.TakesTransaction t d tx) (hK : D'.K = D.K) (hverify : D'.verify = D.verify) :
    D'.TakesTransaction t d tx := by
  refine ⟨h.inputSize, h.length, h.tick, by rw [hK]; exact h.digest, ?_⟩
  rw [verifySignature, hK, hverify]
  exact h.signature

/-- Once the answer to a request for the transactions of a tick has come in, the node has those of the
tick data that the other node had, as long as the node keeps the tick data. -/
theorem transactions_exchanged {S : Serving} {conn : Conn} {dejavu rnd : Nat} {stale : List Byte}
    {td : TickData} {k i count : Nat} {flag : List Byte} {request : TickRequest}
    {steps : List TickSyncStep} (h : s.Exchanging R t td.Lists)
    (hsent : (.flags k td t i flag count, request) ∈ s.sent)
    (hS : S.tryGetTickData t.toNat = some td) (hK : S.K = s.node.peer.env.K)
    (hok : Runs.Guarded TickSync.step
      (fun s st => s.Ok R t td.Lists st ∧ s.node.peer.node.db.dbTryGetTickData t = some td) s steps)
    (hanswer : Answered (replyTransaction S conn dejavu rnd (request.bytes ++ stale)) steps) :
    let node := (Runs.run TickSync.step s steps).node
    let hash := fun d => getIdentityFromPublicKey s.node.peer.env.K d true
    (∀ d tx, td.Lists d → S.tryGetTransaction (hash d) = some tx →
      s.node.peer.env.TakesTransaction t d tx → dbCheckTransactionExist node.ticks (hash d) = true) ∧
      ∀ d, td.Lists d → dbCheckTransactionExist s.node.ticks (hash d) = true →
        dbCheckTransactionExist node.ticks (hash d) = true := by
  obtain ⟨hend, hgrow⟩ := TickSync.exchanging_of_run h (hok.mono fun _ _ hst => hst.1)
  refine ⟨fun d tx hlists hserved htakes => ?_, hgrow.transactions⟩
  obtain ⟨⟨hlen, hflags⟩, v, r, hphase, hasked⟩ := h.sent _ hsent
  obtain rfl := TickRequester.transactions_of_step hphase hasked
  obtain ⟨hne, j, hj⟩ := id hlists
  subst hj
  have hflag := @flagAt_transactions t flag stale j.val (by rw [hlen]; exact j.isLt)
  cases hj : testFlag flag j.val with
  | true =>
      obtain ⟨_, -, -, hhas⟩ := hflags j.val hj
      exact hgrow.transactions _ hlists (hhas hlists)
  | false =>
      rw [hj] at hflag
      obtain ⟨trusted, k', hst⟩ := hanswer _ (mem_replyTransaction
        (by rw [readLE_transactions]; exact hS) hne hflag (by rw [hK]; exact hserved))
      refine @TickSync.node_of_mem R t td.Lists s _ steps _ h (fun _ _ hst => hst.1) hok hst
        (fun node => node.ticks.hasTransaction
          (getIdentityFromPublicKey s.node.peer.env.K (td.transactionDigests j) true) = true ∧
            node.peer.env.K = s.node.peer.env.K) (fun s' h' hnode hdata => ?_) ?_ |>.1
      · have hdb := s'.node.peer.step_transaction trusted k' conn dejavu
          (htakes.congr hnode.hashes.1 hnode.hashes.2) h'.fresh hdata.2 hlists.listedIn
        have hhas : (s'.node.peer.step (.data trusted k' (reply conn dejavu BROADCAST_TRANSACTION
            tx).packet)).node.db.ticks.hasTransaction
              (getIdentityFromPublicKey s.node.peer.env.K (td.transactionDigests j) true) = true := by
          rw [hdb, ← hnode.hashes.1, ← (htakes.congr hnode.hashes.1 hnode.hashes.2).digest]
          change (_ == _ || _) = true
          rw [beq_self_eq_true, Bool.true_or]
        exact ⟨hhas, (s'.node.peer.step_hashes _).1.trans hnode.hashes.1⟩
      · intro a b hab ⟨hhas, hKa⟩
        rw [← hKa] at hhas ⊢
        exact ⟨hab.transactions _ hlists hhas, hab.hashes.1⟩

/-- Tick data with one transaction. -/
def dataOfOne : TickData :=
  { TickData.zero with
    tick := 10
    epoch := 1
    transactionDigests := fun i => if i.val = 0 then 7 else m256i.zero }

/-- A transaction of tick 10 without input. -/
def txOfTen : List Byte := List.replicate 72 0 ++ leBytes 4 (10 : BitVec 32) ++ List.replicate 68 0

def ticksOfOne : TickKeyDB := dbInsertTickData emptyNode.db.ticks dataOfOne

/-- The thread has looked at the whole tick data, and found nothing. -/
def phaseOfOne : RequestPhase :=
  .flags 0 dataOfOne 10 NUMBER_OF_TRANSACTIONS_PER_TICK (List.replicate 128 0) 1

theorem takes_txOfTen : { bareReceiver with receiver := firstEpoch, K := hashSeven }.TakesTransaction
    10 7 txOfTen :=
  ⟨by decide +kernel, by decide +kernel, by decide +kernel, rfl, rfl⟩

/-- A node with the tick data asks for its transaction, and gets it. -/
theorem transactions_exchanged_ten :
    let request := TickRequest.RequestedTickTransactions 10 (List.replicate 128 0)
    let s := requestedTen ticksOfOne phaseOfOne request
    let answer := [reply 7 1 BROADCAST_TRANSACTION txOfTen, sendEndPacket 7 1 0]
    dbCheckTransactionExist (Runs.run TickSync.step s (delivered answer)).node.ticks
      (getIdentityFromPublicKey hashSeven 7 true) = true := by
  intro request s answer
  have hne : (7 : m256i) ≠ m256i.zero := by decide
  have hlists : dataOfOne.Lists 7 := ⟨hne, ⟨0, by decide⟩, rfl⟩
  have hasked : (TickRequester.step bareView { futureOffset := 1, phase := phaseOfOne }).1 =
      some request := rfl
  have h : s.Exchanging firstEpoch 10 dataOfOne.Lists := by
    refine exchanging_requestedTen (fun i => nofun) ⟨List.length_replicate, fun j hj => ?_⟩
      ⟨_, _, ?_, hasked⟩
    · rw [testFlag_replicate] at hj
      exact absurd hj Bool.false_ne_true
    · rfl
  have hdata : s.node.peer.node.db.dbTryGetTickData 10 = some dataOfOne := rfl
  have hnext : (s.step (.node (.peer (.data true 0 (reply 7 1 BROADCAST_TRANSACTION
      txOfTen).packet)))).node.peer.node.db.dbTryGetTickData 10 = some dataOfOne := by
    rw [TickSync.step_peer, s.node.peer.step_transaction true 0 7 1 takes_txOfTen h.fresh hdata hlists.listedIn]
    rfl
  have hok : Runs.Guarded TickSync.step (fun s st => s.Ok firstEpoch 10 dataOfOne.Lists st ∧
      s.node.peer.node.db.dbTryGetTickData 10 = some dataOfOne) s (delivered answer) := by
    rw [delivered, List.map_cons, List.map_singleton, Runs.Guarded, Runs.Guarded]
    exact ⟨⟨trivial, hdata⟩, ⟨trivial, hnext⟩, trivial⟩
  refine (@transactions_exchanged _ _ s (servingTen dataOfOne txOfTen) 7 1 0 [] _ _ _ _ _ _
    (delivered answer) h
    List.mem_cons_self rfl rfl hok fun x hx => ?_).1 7 txOfTen hlists rfl takes_txOfTen
  refine answered_delivered answer x ?_
  unfold replyTransaction at hx
  rcases List.mem_append.mp hx with hlisted | hend
  · obtain ⟨i, -, hi⟩ := List.mem_filterMap.mp hlisted
    obtain ⟨tx, htx, rfl⟩ := Option.map_eq_some_iff.mp (Option.ite_none_right_eq_some.mp hi).2
    obtain rfl : txOfTen = tx := Option.some.inj htx
    exact List.mem_cons_self
  · exact List.mem_cons_of_mem _ hend

end exchange

end QubicBob
