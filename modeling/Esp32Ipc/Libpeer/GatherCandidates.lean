import Esp32Ipc.Libpeer.AgentRecv
import Esp32Ipc.Libpeer.RemoteCandidates

/-!
# Gathering local candidates

One socket serves every STUN and TURN server, so what a wait reads may be the late answer to an
earlier request. `agent_create_stun_addr` and `agent_create_turn_addr` send a request, wait for the
reply they expect and make a candidate of it; a TURN server first refuses with the realm and the
nonce that the request is then repeated with. The socket's answers are the list of polls, their
times counted from when the clock read `epoch`.
-/

namespace Esp32Ipc

open Framework

def agentStunRecvTimeoutMs : Nat := 1000

/-- The attributes that `stun_parse_msg_buf` reads and the agent uses. -/
structure StunAttrs (Address : Type) where
  mappedAddr : Address
  relayedAddr : Address
  realm : List UInt8
  nonce : List UInt8

inductive IceCandidateType where
  | host
  | srflx
  | relay
  deriving DecidableEq

structure IceCandidate (Address : Type) where
  foundation : Nat
  type : IceCandidateType
  addr : Address

/-- What is sent, with the attributes of the second allocation request. -/
inductive StunRequest (Address : Type) where
  | binding (server : Address)
  | allocate (server : Address)
  | allocateAgain (server : Address) (username nonce realm credential : List UInt8)

/-- What the agent rests on: the constants and the parser of STUN messages, the clock, and what the
socket answers to the sends, one after the other. -/
structure StunEnv (StunClass StunMethod Address : Type) where
  classResponse : StunClass
  classError : StunClass
  methodBinding : StunMethod
  methodAllocate : StunMethod
  parse : List UInt8 → StunClass × StunMethod
  attrs : List UInt8 → StunAttrs Address → StunAttrs Address
  epoch : UInt32
  send : Nat → Int

/-- `recv_msg`, kept from one wait of a call to the next. -/
structure RecvMsg (StunClass StunMethod Address : Type) where
  msg : StunMessage StunClass StunMethod
  attrs : StunAttrs Address

/-- What the agent did on the socket. -/
inductive GatherStep (Address : Type) where
  | send (request : StunRequest Address)
  | read (poll : StunPoll)

def GatherStep.request {Address : Type} : GatherStep Address → Option (StunRequest Address)
  | .send request => some request
  | .read _ => none

def GatherStep.poll {Address : Type} : GatherStep Address → Option StunPoll
  | .send _ => none
  | .read poll => some poll

/-- The clock, what the socket has still to answer, the local candidates, and what was sent and read,
in order. -/
structure Gathering (Address : Type) where
  now : Nat
  polls : List StunPoll
  log : List (GatherStep Address)
  localCandidates : List (IceCandidate Address)

/-- The poll as a wait that began at `now` sees it. -/
def StunPoll.since (now : Nat) (p : StunPoll) : StunPoll := { p with elapsed := p.elapsed - now }

variable {StunClass StunMethod Address : Type}

/-- `stun_parse_msg_buf` keeps the attributes that a datagram does not carry. -/
def StunEnv.readPoll (env : StunEnv StunClass StunMethod Address) (a : StunAttrs Address) (p : StunPoll) :
    StunAttrs Address :=
  if p.ret > 0 then env.attrs p.buf a else a

structure IceServer (Address : Type) where
  urls : List Char
  username : List UInt8
  credential : List UInt8
  /-- The addresses that its host name resolves to. -/
  resolved : List Address

def IceServer.isStun (server : IceServer Address) : Bool := "stun:".toList.isPrefixOf server.urls

def IceServer.isTurn (server : IceServer Address) : Bool := "turn:".toList.isPrefixOf server.urls

namespace Gathering

def sent (s : Gathering Address) : List (StunRequest Address) := s.log.filterMap GatherStep.request

def sendRequest (s : Gathering Address) (request : StunRequest Address) : Gathering Address :=
  { s with log := s.log ++ [.send request] }

/-- `ice_candidate_create` on the entry at the count; an entry outside the array gives `none`. -/
def addLocal (s : Gathering Address) (type : IceCandidateType) (addr : Address) :
    Option (Gathering Address) :=
  if s.localCandidates.length < agentMaxCandidates then
    some { s with localCandidates := s.localCandidates ++ [⟨s.localCandidates.length + 1,type,addr⟩] }
  else none

/-- The socket after `count` more polls. -/
def afterPolls (s : Gathering Address) (count : Nat) : Gathering Address :=
  { s with
    now := ((s.polls.take count).getLast?.map StunPoll.elapsed).getD s.now
    polls := s.polls.drop count
    log := s.log ++ (s.polls.take count).map .read }

end Gathering

section Calls

variable [DecidableEq StunClass] [DecidableEq StunMethod] (env : StunEnv StunClass StunMethod Address)
  (zeroed : RecvMsg StunClass StunMethod Address)

/-- `agent_socket_recv_stun` on the agent's socket; `none` is still waiting. -/
def recvStun (expectClass : StunClass) (expectMethod : StunMethod)
    (recv : RecvMsg StunClass StunMethod Address) (s : Gathering Address) :
    Option (Int × RecvMsg StunClass StunMethod Address × Gathering Address) :=
  (agentSocketRecvStun env.parse expectClass expectMethod (portsGetEpochTime env.epoch s.now)
      agentStunRecvTimeoutMs (s.polls.map (StunPoll.since s.now)) recv.msg).map fun r =>
    (r.ret,⟨r.msg,(s.polls.take (r.waited + 1)).foldl env.readPoll recv.attrs⟩,s.afterPolls (r.waited + 1))

def agentCreateStunAddr (server : Address) (s : Gathering Address) : Option (Int × Gathering Address) :=
  let ret := env.send s.sent.length
  let s := s.sendRequest (.binding server)
  if ret < 0 then some (ret,s)
  else (recvStun env env.classResponse env.methodBinding zeroed s).bind fun (ret,recv,s) =>
    if ret ≤ 0 then some (ret,s)
    else (s.addLocal .srflx recv.attrs.mappedAddr).map fun s => (ret,s)

def agentCreateTurnAddr (server : Address) (username credential : List UInt8) (s : Gathering Address) :
    Option (Int × Gathering Address) :=
  let ret := env.send s.sent.length
  let s := s.sendRequest (.allocate server)
  if ret < 0 then some (-1,s)
  else (recvStun env env.classError env.methodAllocate zeroed s).bind fun (ret,recv,s) =>
    if ret ≤ 0 then some (ret,s)
    else
      let ret := env.send s.sent.length
      let s := s.sendRequest (.allocateAgain server username recv.attrs.nonce recv.attrs.realm credential)
      if ret < 0 then some (-1,s)
      else (recvStun env env.classResponse env.methodAllocate recv s).bind fun (ret,recv,s) =>
        if ret ≤ 0 then some (ret,s)
        else (s.addLocal .relay recv.attrs.relayedAddr).map fun s => (ret,s)

/-- One address in `agent_gather_candidate`: of the host itself where `urls` is null, else one that
the server's name resolved to. Neither call's result is looked at. -/
def gatherAddress (s : Gathering Address) : Option (IceServer Address) × Address →
    Option (Gathering Address)
  | (none,addr) => s.addLocal .host addr
  | (some server,addr) =>
    if server.isStun then
      (agentCreateStunAddr env zeroed addr s).map Prod.snd
    else if server.isTurn then
      (agentCreateTurnAddr env zeroed addr server.username server.credential s).map Prod.snd
    else some s

/-- The addresses of a call of `agent_gather_candidate`, one after the other. -/
def gatherAddresses (call : Option (IceServer Address) × List Address) :
    List (Option (IceServer Address) × Address) :=
  call.2.map (call.1,·)

def agentGatherCandidate (s : Gathering Address) (call : Option (IceServer Address) × List Address) :
    Option (Gathering Address) :=
  runEvents (gatherAddress env zeroed) s (gatherAddresses call)

/-- The calls of `peer_connection_state_new`: the host first, then the configured servers. -/
def gatherCalls (hosts : List Address) (servers : List (IceServer Address)) :
    List (Option (IceServer Address) × List Address) :=
  (none,hosts) :: servers.map fun server => (some server,server.resolved)

def gatherCandidates (hosts : List Address) (servers : List (IceServer Address)) (s : Gathering Address) :
    Option (Gathering Address) :=
  runEvents (agentGatherCandidate env zeroed) s (gatherCalls hosts servers)

end Calls

section Polls

variable {env : StunEnv StunClass StunMethod Address} {expectClass : StunClass} {expectMethod : StunMethod}

theorem matches_since {now : Nat} {p : StunPoll} : (p.since now).Matches env.parse expectClass expectMethod ↔
    p.Matches env.parse expectClass expectMethod := Iff.rfl

theorem take_succ_length {before after : List StunPoll} {p : StunPoll} :
    (before ++ p :: after).take (before.length + 1) = before ++ [p] := by
  rw [List.append_cons]
  exact List.take_left' (by simp)

theorem drop_succ_length {before after : List StunPoll} {p : StunPoll} :
    (before ++ p :: after).drop (before.length + 1) = after := by
  rw [List.append_cons]
  exact List.drop_left' (by simp)

variable (env expectClass expectMethod) in
/-- Nothing of what is expected was read. -/
def Unanswered (read : List StunPoll) : Prop := ∀ p ∈ read, ¬p.Matches env.parse expectClass expectMethod

variable (env expectClass expectMethod) in
/-- The last datagram read is the first one of what is expected. -/
def AnsweredBy (read : List StunPoll) : Prop :=
  ∃ before p, read = before ++ [p] ∧ Unanswered env expectClass expectMethod before ∧
    p.Matches env.parse expectClass expectMethod

end Polls

section Waits

variable [DecidableEq StunClass] [DecidableEq StunMethod] {env : StunEnv StunClass StunMethod Address}
  {expectClass : StunClass} {expectMethod : StunMethod} {start deadline : UInt32} {polls : List StunPoll}
  {msg : StunMessage StunClass StunMethod} {r : StunReply StunClass StunMethod}
  {recv recv' : RecvMsg StunClass StunMethod Address} {s t : Gathering Address} {ret : Int}

/-- A wait that is over has read up to one poll: the first expected datagram, or none was. -/
theorem recvStunLoop_reply
    (h : recvStunLoop env.parse expectClass expectMethod start deadline polls msg = some r) :
    ∃ before p after, polls = before ++ p :: after ∧ r.waited = before.length ∧
      Unanswered env expectClass expectMethod before ∧
      (0 < r.ret ↔ p.Matches env.parse expectClass expectMethod) := by
  induction polls generalizing msg r with
  | nil => cases h
  | cons p polls ih =>
    by_cases hret : p.ret < 0
    · rw [recvStunLoop_failed start deadline polls msg hret] at h
      obtain rfl := Option.some.inj h
      refine ⟨[],p,polls,rfl,rfl,List.forall_mem_nil _,?_⟩
      exact iff_of_false (Int.not_lt.mpr (Int.le_of_lt hret)) fun hmatch => absurd hmatch.1 (by omega)
    by_cases hmatch : p.Matches env.parse expectClass expectMethod
    · rw [recvStunLoop_matches start deadline polls msg hmatch] at h
      obtain rfl := Option.some.inj h
      exact ⟨[],p,polls,rfl,rfl,List.forall_mem_nil _,iff_of_true hmatch.1 hmatch⟩
    obtain ⟨msg',hloop⟩ := recvStunLoop_check start deadline polls msg hret hmatch
    rw [hloop] at h
    split at h
    · obtain ⟨r',hr',rfl⟩ := Option.map_eq_some_iff.mp h
      obtain ⟨before,q,after,rfl,hwaited,hbefore,hpos⟩ := ih hr'
      exact ⟨p :: before,q,after,rfl,congrArg Nat.succ hwaited,List.forall_mem_cons.mpr ⟨hmatch,hbefore⟩,hpos⟩
    · obtain rfl := Option.some.inj h
      exact ⟨[],p,polls,rfl,rfl,List.forall_mem_nil _,iff_of_false (lt_irrefl 0) hmatch⟩

theorem recvStunLoop_read {before after : List StunPoll} {p : StunPoll}
    (hbefore : ∀ q ∈ before, ¬q.ret < 0 ∧ ¬q.Matches env.parse expectClass expectMethod ∧
      portsGetEpochTime start q.elapsed < deadline)
    (hp : p.Matches env.parse expectClass expectMethod) :
    recvStunLoop env.parse expectClass expectMethod start deadline (before ++ p :: after) msg =
      some ⟨p.ret,⟨p.buf,expectClass,expectMethod⟩,before.length⟩ := by
  induction before generalizing msg with
  | nil => exact recvStunLoop_matches start deadline after msg hp
  | cons q before ih =>
    obtain ⟨⟨hret,hmatch,htime⟩,hrest⟩ := List.forall_mem_cons.mp hbefore
    obtain ⟨msg',hloop⟩ := recvStunLoop_check start deadline (before ++ p :: after) msg hret hmatch
    rw [List.cons_append,hloop,if_pos htime,ih hrest]
    rfl

theorem recvStun_reply (h : recvStun env expectClass expectMethod recv s = some (ret,recv',t)) :
    ∃ read, s.polls = read ++ t.polls ∧ t.log = s.log ++ read.map .read ∧
      t.localCandidates = s.localCandidates ∧ recv'.attrs = read.foldl env.readPoll recv.attrs ∧
      (0 < ret ∧ AnsweredBy env expectClass expectMethod read ∨
        ret ≤ 0 ∧ Unanswered env expectClass expectMethod read) := by
  obtain ⟨r,hr,hresult⟩ := Option.map_eq_some_iff.mp h
  cases hresult
  obtain ⟨before,p,after,hsplit,hwaited,hbefore,hpos⟩ := recvStunLoop_reply hr
  obtain ⟨before,rest,hpolls,rfl,hrest⟩ := List.map_eq_append_iff.mp hsplit
  obtain ⟨p,after,rfl,rfl,-⟩ := List.map_eq_cons_iff.mp hrest
  rw [List.length_map] at hwaited
  rw [matches_since] at hpos
  have hnone : Unanswered env expectClass expectMethod before :=
    fun q hq => mt matches_since.mpr (hbefore _ (List.mem_map_of_mem hq))
  have htake : s.polls.take (r.waited + 1) = before ++ [p] := by rw [hwaited,hpolls,take_succ_length]
  have hdrop : s.polls.drop (r.waited + 1) = after := by rw [hwaited,hpolls,drop_succ_length]
  refine ⟨before ++ [p],?_,congrArg (fun read => s.log ++ List.map GatherStep.read read) htake,rfl,
    congrArg (List.foldl env.readPoll recv.attrs) htake,?_⟩
  · rw [hpolls,Gathering.afterPolls,hdrop,List.append_assoc]
    rfl
  · by_cases hret : 0 < r.ret
    · exact .inl ⟨hret,before,p,rfl,hnone,hpos.mp hret⟩
    · refine .inr ⟨Int.not_lt.mp hret,?_⟩
      intro q hq
      rcases List.mem_append.mp hq with hq | hq
      · exact hnone q hq
      · rw [List.mem_singleton.mp hq]
        exact mt hpos.mpr hret

end Waits

section Answers

/-- What gathering does for an address: what it sends and reads, and the candidate it gets. -/
structure Exchange (Address : Type) where
  log : List (GatherStep Address)
  candidate : Option (IceCandidateType × Address)

/-- The second allocation request, with the realm and the nonce that the refusal left. -/
def IceServer.allocateAgain (server : IceServer Address) (addr : Address) (attrs : StunAttrs Address) :
    StunRequest Address :=
  .allocateAgain addr server.username attrs.nonce attrs.realm server.credential

variable (env : StunEnv StunClass StunMethod Address) (zeroed : RecvMsg StunClass StunMethod Address)

/-- The exchange for an address of the host or of a server, whatever the socket answers: a wait reads
up to the first datagram it expects, or it ends without one. -/
inductive Serves : Option (IceServer Address) × Address → Exchange Address → Prop where
  | host (addr : Address) : Serves (none,addr) ⟨[],some (.host,addr)⟩
  | ignored (server : IceServer Address) (addr : Address) (hstun : server.isStun = false)
      (hturn : server.isTurn = false) : Serves (some server,addr) ⟨[],none⟩
  | unbound (server : IceServer Address) (addr : Address) (read : List StunPoll) (hstun : server.isStun)
      (hread : Unanswered env env.classResponse env.methodBinding read) :
      Serves (some server,addr) ⟨.send (.binding addr) :: read.map .read,none⟩
  | srflx (server : IceServer Address) (addr : Address) (read : List StunPoll) (hstun : server.isStun)
      (hread : AnsweredBy env env.classResponse env.methodBinding read) :
      Serves (some server,addr)
        ⟨.send (.binding addr) :: read.map .read,
          some (.srflx,(read.foldl env.readPoll zeroed.attrs).mappedAddr)⟩
  | unrefused (server : IceServer Address) (addr : Address) (read : List StunPoll)
      (hstun : server.isStun = false) (hturn : server.isTurn)
      (hread : Unanswered env env.classError env.methodAllocate read) :
      Serves (some server,addr) ⟨.send (.allocate addr) :: read.map .read,none⟩
  | ungranted (server : IceServer Address) (addr : Address) (read again : List StunPoll)
      (hstun : server.isStun = false) (hturn : server.isTurn)
      (hread : AnsweredBy env env.classError env.methodAllocate read)
      (hagain : Unanswered env env.classResponse env.methodAllocate again) :
      Serves (some server,addr)
        ⟨.send (.allocate addr) :: read.map .read ++
          .send (server.allocateAgain addr (read.foldl env.readPoll zeroed.attrs)) :: again.map .read,none⟩
  | relay (server : IceServer Address) (addr : Address) (read again : List StunPoll)
      (hstun : server.isStun = false) (hturn : server.isTurn)
      (hread : AnsweredBy env env.classError env.methodAllocate read)
      (hagain : AnsweredBy env env.classResponse env.methodAllocate again) :
      Serves (some server,addr)
        ⟨.send (.allocate addr) :: read.map .read ++
          .send (server.allocateAgain addr (read.foldl env.readPoll zeroed.attrs)) :: again.map .read,
          some (.relay,((read ++ again).foldl env.readPoll zeroed.attrs).relayedAddr)⟩

/-- Candidates are numbered by their place in the array. -/
def numbered (count : Nat) (candidates : List (IceCandidateType × Address)) : List (IceCandidate Address) :=
  (candidates.zipIdx (count + 1)).map fun c => ⟨c.2,c.1.1,c.1.2⟩

/-- From `s` to `t` there were these exchanges, one after the other. -/
structure Gathers (exchanges : List (Exchange Address)) (s t : Gathering Address) : Prop where
  log : t.log = s.log ++ exchanges.flatMap Exchange.log
  polls : s.polls = (exchanges.flatMap Exchange.log).filterMap GatherStep.poll ++ t.polls
  candidates : t.localCandidates =
    s.localCandidates ++ numbered s.localCandidates.length (exchanges.filterMap Exchange.candidate)

/-- The part of an exchange before it gets its candidate. -/
structure Exchanges (steps : List (GatherStep Address)) (s t : Gathering Address) : Prop where
  log : t.log = s.log ++ steps
  polls : s.polls = steps.filterMap GatherStep.poll ++ t.polls
  candidates : t.localCandidates = s.localCandidates

variable {env zeroed} {steps : List (GatherStep Address)} {exchanges exchanges' : List (Exchange Address)}
  {s t u : Gathering Address}

theorem numbered_append (count : Nat) (cs ds : List (IceCandidateType × Address)) :
    numbered count (cs ++ ds) = numbered count cs ++ numbered (count + cs.length) ds := by
  rw [numbered,List.zipIdx_append,List.map_append,Nat.add_right_comm]
  rfl

@[simp] theorem numbered_length (count : Nat) (cs : List (IceCandidateType × Address)) :
    (numbered count cs).length = cs.length := by simp [numbered]

theorem Gathers.nothing (s : Gathering Address) : Gathers [] s s where
  log := (List.append_nil _).symm
  polls := rfl
  candidates := (List.append_nil _).symm

theorem Gathers.trans (hst : Gathers exchanges s t) (htu : Gathers exchanges' t u) :
    Gathers (exchanges ++ exchanges') s u where
  log := by rw [htu.log,hst.log,List.flatMap_append,List.append_assoc]
  polls := by rw [hst.polls,htu.polls,List.flatMap_append,List.filterMap_append,List.append_assoc]
  candidates := by
    rw [htu.candidates,hst.candidates,List.filterMap_append,numbered_append,List.length_append,
      numbered_length,List.append_assoc]

theorem Exchanges.nothing (s : Gathering Address) : Exchanges [] s s where
  log := (List.append_nil _).symm
  polls := rfl
  candidates := rfl

theorem Exchanges.send (h : Exchanges steps s t) (request : StunRequest Address) :
    Exchanges (steps ++ [.send request]) s (t.sendRequest request) where
  log := by
    change t.log ++ [.send request] = _
    rw [h.log,List.append_assoc]
  polls := by
    rw [List.filterMap_append]
    exact h.polls.trans (by simp [GatherStep.poll,Gathering.sendRequest])
  candidates := h.candidates

theorem filterMap_read (read : List StunPoll) :
    (read.map (@GatherStep.read Address)).filterMap GatherStep.poll = read := by
  rw [List.filterMap_map]
  exact List.filterMap_some

theorem Exchanges.without (h : Exchanges steps s t) : Gathers [⟨steps,none⟩] s t where
  log := by simpa using h.log
  polls := by simpa using h.polls
  candidates := by simpa [numbered] using h.candidates

theorem Exchanges.candidate {type : IceCandidateType} {addr : Address} (h : Exchanges steps s t)
    (hadd : t.addLocal type addr = some u) : Gathers [⟨steps,some (type,addr)⟩] s u := by
  rw [Gathering.addLocal,Option.ite_none_right_eq_some] at hadd
  obtain ⟨-,hadd⟩ := hadd
  obtain rfl := Option.some.inj hadd
  constructor
  · simpa using h.log
  · simpa using h.polls
  · rw [h.candidates]
    rfl

variable [DecidableEq StunClass] [DecidableEq StunMethod] {expectClass : StunClass}
  {expectMethod : StunMethod} {recv recv' : RecvMsg StunClass StunMethod Address} {ret : Int}

theorem Exchanges.wait (h : Exchanges steps s t)
    (hwait : recvStun env expectClass expectMethod recv t = some (ret,recv',u)) :
    ∃ read, Exchanges (steps ++ read.map .read) s u ∧ recv'.attrs = read.foldl env.readPoll recv.attrs ∧
      (0 < ret ∧ AnsweredBy env expectClass expectMethod read ∨
        ret ≤ 0 ∧ Unanswered env expectClass expectMethod read) := by
  obtain ⟨read,hpolls,hlog,hcandidates,hattrs,hread⟩ := recvStun_reply hwait
  refine ⟨read,⟨?_,?_,hcandidates.trans h.candidates⟩,hattrs,hread⟩
  · rw [hlog,h.log,List.append_assoc]
  · rw [h.polls,hpolls,List.filterMap_append,filterMap_read,List.append_assoc]

variable {server : IceServer Address} {addr : Address}

theorem agentCreateStunAddr_serves (hstun : server.isStun)
    (h : agentCreateStunAddr env zeroed addr s = some (ret,t)) :
    ∃ x, Serves env zeroed (some server,addr) x ∧ Gathers [x] s t := by
  have hsent : Exchanges [.send (.binding addr)] s (s.sendRequest (.binding addr)) :=
    (Exchanges.nothing s).send _
  rw [agentCreateStunAddr] at h
  split at h
  · cases h
    exact ⟨_,.unbound server addr [] hstun (List.forall_mem_nil _),hsent.without⟩
  obtain ⟨⟨ret,recv,u⟩,hwait,h⟩ := Option.bind_eq_some_iff.mp h
  obtain ⟨read,hread,hattrs,hanswer⟩ := hsent.wait hwait
  change (if ret ≤ 0 then _ else _) = _ at h
  rcases hanswer with ⟨hret,hanswer⟩ | ⟨hret,hanswer⟩
  · rw [if_neg (Int.not_le.mpr hret)] at h
    obtain ⟨v,hadd,hv⟩ := Option.map_eq_some_iff.mp h
    cases hv
    rw [hattrs] at hadd
    exact ⟨_,.srflx server addr read hstun hanswer,hread.candidate hadd⟩
  · rw [if_pos hret] at h
    cases h
    exact ⟨_,.unbound server addr read hstun hanswer,hread.without⟩

theorem agentCreateTurnAddr_serves (hstun : server.isStun = false) (hturn : server.isTurn)
    (h : agentCreateTurnAddr env zeroed addr server.username server.credential s = some (ret,t)) :
    ∃ x, Serves env zeroed (some server,addr) x ∧ Gathers [x] s t := by
  have hsent : Exchanges [.send (.allocate addr)] s (s.sendRequest (.allocate addr)) :=
    (Exchanges.nothing s).send _
  rw [agentCreateTurnAddr] at h
  split at h
  · cases h
    exact ⟨_,.unrefused server addr [] hstun hturn (List.forall_mem_nil _),hsent.without⟩
  obtain ⟨⟨ret,recv,u⟩,hwait,h⟩ := Option.bind_eq_some_iff.mp h
  obtain ⟨read,hread,hattrs,hanswer⟩ := hsent.wait hwait
  change (if ret ≤ 0 then _ else _) = _ at h
  rcases hanswer with ⟨hret,hrefused⟩ | ⟨hret,hanswer⟩
  swap
  · rw [if_pos hret] at h
    cases h
    exact ⟨_,.unrefused server addr read hstun hturn hanswer,hread.without⟩
  rw [if_neg (Int.not_le.mpr hret),hattrs] at h
  have hasked := hread.send (server.allocateAgain addr (read.foldl env.readPoll zeroed.attrs))
  change (if _ then _ else _) = _ at h
  split at h
  · cases h
    refine ⟨_,.ungranted server addr read [] hstun hturn hrefused (List.forall_mem_nil _),?_⟩
    exact hasked.without
  obtain ⟨⟨ret,recv',v⟩,hwait,h⟩ := Option.bind_eq_some_iff.mp h
  obtain ⟨again,hagain,hattrs',hanswer⟩ := hasked.wait hwait
  rw [List.append_assoc] at hagain
  change (if ret ≤ 0 then _ else _) = _ at h
  rcases hanswer with ⟨hret,hgranted⟩ | ⟨hret,hanswer⟩
  · rw [if_neg (Int.not_le.mpr hret)] at h
    obtain ⟨w,hadd,hw⟩ := Option.map_eq_some_iff.mp h
    cases hw
    rw [hattrs',hattrs,← List.foldl_append] at hadd
    exact ⟨_,.relay server addr read again hstun hturn hrefused hgranted,hagain.candidate hadd⟩
  · rw [if_pos hret] at h
    cases h
    exact ⟨_,.ungranted server addr read again hstun hturn hrefused hanswer,hagain.without⟩

theorem gatherAddress_serves {job : Option (IceServer Address) × Address}
    (h : gatherAddress env zeroed s job = some t) : ∃ x, Serves env zeroed job x ∧ Gathers [x] s t := by
  obtain ⟨server,addr⟩ := job
  cases server with
  | none => exact ⟨_,.host addr,(Exchanges.nothing s).candidate h⟩
  | some server =>
    rw [gatherAddress] at h
    split at h
    · next hstun =>
      obtain ⟨⟨ret,u⟩,hcall,rfl⟩ := Option.map_eq_some_iff.mp h
      exact agentCreateStunAddr_serves hstun hcall
    · next hstun =>
      rw [Bool.not_eq_true] at hstun
      split at h
      · next hturn =>
        obtain ⟨⟨ret,u⟩,hcall,rfl⟩ := Option.map_eq_some_iff.mp h
        exact agentCreateTurnAddr_serves hstun hturn hcall
      · next hturn =>
        cases h
        exact ⟨_,.ignored server addr hstun (Bool.not_eq_true _ ▸ hturn),(Exchanges.nothing s).without⟩

end Answers

section Device

/-- A parser that takes the attribute from behind the message type. -/
def stunAttrsOf (buf : List UInt8) (old : StunAttrs UInt8) : StunAttrs UInt8 :=
  if stunHeaderKind buf = (0x0100,1) then { old with mappedAddr := buf.getD 2 0 }
  else if stunHeaderKind buf = (0x0100,3) then { old with relayedAddr := buf.getD 2 0 }
  else if stunHeaderKind buf = (0x0110,3) then { old with realm := [buf.getD 2 0], nonce := buf.drop 3 }
  else old

def deviceEnv : StunEnv Nat Nat UInt8 where
  classResponse := 0x0100
  classError := 0x0110
  methodBinding := 1
  methodAllocate := 3
  parse := stunHeaderKind
  attrs := stunAttrsOf
  epoch := 0
  send := fun _ => 20

def zeroedMsg : RecvMsg Nat Nat UInt8 := ⟨⟨[],0,0⟩,⟨0,0,[],[]⟩⟩

/-- The two URLs of one host. -/
def deviceServers : List (IceServer UInt8) :=
  [⟨"stun:relay".toList,[],[],[10]⟩,⟨"turn:relay".toList,[1],[2],[10]⟩]

/-- The binding success comes twice, the second time into the wait for the allocation error. -/
def devicePolls : List StunPoll :=
  [⟨0,[],5⟩,⟨3,[1,1,7],30⟩,⟨3,[1,1,7],31⟩,⟨5,[1,0x13,5,6,6],50⟩,⟨0,[],60⟩,⟨3,[1,3,8],90⟩]

def deviceGathered : Gathering UInt8 where
  now := 90
  polls := []
  log := [.send (.binding 10),.read ⟨0,[],5⟩,.read ⟨3,[1,1,7],30⟩,.send (.allocate 10),
    .read ⟨3,[1,1,7],31⟩,.read ⟨5,[1,0x13,5,6,6],50⟩,.send (.allocateAgain 10 [1] [6,6] [5] [2]),
    .read ⟨0,[],60⟩,.read ⟨3,[1,3,8],90⟩]
  localCandidates := [⟨1,.host,4⟩,⟨2,.srflx,7⟩,⟨3,.relay,8⟩]

theorem device_gathers : gatherCandidates deviceEnv zeroedMsg [4] deviceServers ⟨0,devicePolls,[],[]⟩ =
    some deviceGathered := rfl

end Device

section Complete

variable [DecidableEq StunClass] [DecidableEq StunMethod] {env : StunEnv StunClass StunMethod Address}
  {zeroed : RecvMsg StunClass StunMethod Address} {expectClass : StunClass} {expectMethod : StunMethod}
  {s : Gathering Address} {before between rest : List StunPoll} {q p : StunPoll} {addr : Address}

variable (env) in
/-- A wait that begins at `now` reads in time whatever is before `p`, none of it a failure or what is
expected, and then `p`. -/
structure ReadsInTime (expectClass : StunClass) (expectMethod : StunMethod) (now : Nat)
    (before : List StunPoll) (p : StunPoll) : Prop where
  passed : ∀ q ∈ before, ¬q.ret < 0 ∧ ¬q.Matches env.parse expectClass expectMethod ∧ now ≤ q.elapsed ∧
    q.elapsed < now + agentStunRecvTimeoutMs
  answer : p.Matches env.parse expectClass expectMethod

variable (env) in
/-- The 32-bit clock does not wrap between the checks of a wait that begins at `now` and its deadline. -/
def ClockFits (now : Nat) (before : List StunPoll) : Prop :=
  ∀ q ∈ before, (q.since now).ClockFits (portsGetEpochTime env.epoch now) agentStunRecvTimeoutMs

theorem recvStun_read (recv : RecvMsg StunClass StunMethod Address)
    (h : ReadsInTime env expectClass expectMethod s.now before p) (hfits : ClockFits env s.now before)
    (hpolls : s.polls = before ++ p :: rest) :
    ∃ recv', recvStun env expectClass expectMethod recv s =
      some (p.ret,recv',{ s with
        now := p.elapsed
        polls := rest
        log := s.log ++ (before ++ [p]).map .read }) := by
  have hclock : ∀ q ∈ before.map (StunPoll.since s.now), ¬q.ret < 0 ∧
      ¬q.Matches env.parse expectClass expectMethod ∧
      portsGetEpochTime (portsGetEpochTime env.epoch s.now) q.elapsed <
        portsGetEpochTime (portsGetEpochTime env.epoch s.now) 0 + UInt32.ofNat agentStunRecvTimeoutMs := by
    intro q hq
    obtain ⟨q,hmem,rfl⟩ := List.mem_map.mp hq
    obtain ⟨hret,hmatch,hfrom,huntil⟩ := h.passed q hmem
    refine ⟨hret,hmatch,((clockFits_iff (by decide)).mp (hfits q hmem)).mpr ?_⟩
    change q.elapsed - s.now < _
    omega
  have hsince : s.polls.map (StunPoll.since s.now) =
      before.map (StunPoll.since s.now) ++ p.since s.now :: rest.map (StunPoll.since s.now) := by
    rw [hpolls,List.map_append,List.map_cons]
  have hanswer : (p.since s.now).Matches env.parse expectClass expectMethod := h.answer
  have hloop : agentSocketRecvStun env.parse expectClass expectMethod (portsGetEpochTime env.epoch s.now)
      agentStunRecvTimeoutMs (s.polls.map (StunPoll.since s.now)) recv.msg =
        some ⟨p.ret,⟨p.buf,expectClass,expectMethod⟩,before.length⟩ := by
    rw [hsince,agentSocketRecvStun,recvStunLoop_read hclock hanswer,List.length_map]
    rfl
  have hafter : s.afterPolls (before.length + 1) =
      { s with now := p.elapsed, polls := rest, log := s.log ++ (before ++ [p]).map .read } := by
    rw [Gathering.afterPolls,hpolls,take_succ_length,drop_succ_length,List.getLast?_concat]
    rfl
  rw [recvStun,hloop,Option.map_some,hafter]
  exact ⟨_,rfl⟩

variable (env) in
/-- The datagrams read for an address: whatever else is among them, what the calls wait for comes in
time. A success of another server's binding may well be what is read before the refusal. -/
inductive Answered (now : Nat) : Option (IceServer Address) → List StunPoll → Nat → Prop where
  | host : Answered now none [] now
  | ignored (server : IceServer Address) (hstun : server.isStun = false) (hturn : server.isTurn = false) :
      Answered now (some server) [] now
  | stun (server : IceServer Address) (before : List StunPoll) (p : StunPoll) (hstun : server.isStun)
      (hread : ReadsInTime env env.classResponse env.methodBinding now before p)
      (hfits : ClockFits env now before) :
      Answered now (some server) (before ++ [p]) p.elapsed
  | turn (server : IceServer Address) (before between : List StunPoll) (q p : StunPoll)
      (hstun : server.isStun = false) (hturn : server.isTurn)
      (hrefused : ReadsInTime env env.classError env.methodAllocate now before q)
      (hgranted : ReadsInTime env env.classResponse env.methodAllocate q.elapsed between p)
      (hfits : ClockFits env now before) (hfits' : ClockFits env q.elapsed between) :
      Answered now (some server) (before ++ q :: (between ++ [p])) p.elapsed

variable (env) in
inductive AllAnswered : Nat → List (Option (IceServer Address) × Address) → List StunPoll → Prop where
  | nil (now : Nat) : AllAnswered now [] []
  | cons (now later : Nat) (server : Option (IceServer Address)) (addr : Address)
      (jobs : List (Option (IceServer Address) × Address)) (read reads : List StunPoll)
      (hfirst : Answered env now server read later) (hlater : AllAnswered later jobs reads) :
      AllAnswered now ((server,addr) :: jobs) (read ++ reads)

/-- The type of the candidate that an address gives, if it gives one. -/
def candidateType : Option (IceServer Address) → Option IceCandidateType
  | none => some .host
  | some server => if server.isStun then some .srflx else if server.isTurn then some .relay else none

theorem agentCreateStunAddr_answered (hsend : ∀ k, ¬env.send k < 0)
    (hread : ReadsInTime env env.classResponse env.methodBinding s.now before p)
    (hfits : ClockFits env s.now before) (hpolls : s.polls = before ++ p :: rest)
    (hroom : s.localCandidates.length < agentMaxCandidates) :
    ∃ log mapped, agentCreateStunAddr env zeroed addr s = some (p.ret,{
      now := p.elapsed
      polls := rest
      log := log
      localCandidates := s.localCandidates ++ [⟨s.localCandidates.length + 1,.srflx,mapped⟩] }) := by
  obtain ⟨recv,hwait⟩ := recvStun_read (s := s.sendRequest (.binding addr)) zeroed hread hfits hpolls
  have hpos : ¬p.ret ≤ 0 := Int.not_le.mpr hread.answer.1
  refine ⟨(s.sendRequest (.binding addr)).log ++ (before ++ [p]).map .read,recv.attrs.mappedAddr,?_⟩
  rw [agentCreateStunAddr,if_neg (hsend _),hwait,Option.bind_some]
  change (if p.ret ≤ 0 then _ else _) = _
  rw [if_neg hpos]
  change Option.map _ (if s.localCandidates.length < agentMaxCandidates then _ else _) = _
  rw [if_pos hroom]
  rfl

theorem agentCreateTurnAddr_answered {username credential : List UInt8} (hsend : ∀ k, ¬env.send k < 0)
    (hrefused : ReadsInTime env env.classError env.methodAllocate s.now before q)
    (hgranted : ReadsInTime env env.classResponse env.methodAllocate q.elapsed between p)
    (hfits : ClockFits env s.now before) (hfits' : ClockFits env q.elapsed between)
    (hpolls : s.polls = before ++ q :: (between ++ p :: rest))
    (hroom : s.localCandidates.length < agentMaxCandidates) :
    ∃ log relayed, agentCreateTurnAddr env zeroed addr username credential s = some (p.ret,{
      now := p.elapsed
      polls := rest
      log := log
      localCandidates := s.localCandidates ++ [⟨s.localCandidates.length + 1,.relay,relayed⟩] }) := by
  obtain ⟨recv,hwait⟩ := recvStun_read (s := s.sendRequest (.allocate addr)) zeroed hrefused hfits hpolls
  set t := Gathering.sendRequest
    { s.sendRequest (.allocate addr) with
      now := q.elapsed
      polls := between ++ p :: rest
      log := (s.sendRequest (.allocate addr)).log ++ (before ++ [q]).map .read }
    (.allocateAgain addr username recv.attrs.nonce recv.attrs.realm credential)
  obtain ⟨recv',hagain⟩ := recvStun_read (s := t) recv hgranted hfits' rfl
  have hfirst : ¬q.ret ≤ 0 := Int.not_le.mpr hrefused.answer.1
  have hsecond : ¬p.ret ≤ 0 := Int.not_le.mpr hgranted.answer.1
  refine ⟨t.log ++ (between ++ [p]).map .read,recv'.attrs.relayedAddr,?_⟩
  rw [agentCreateTurnAddr,if_neg (hsend _),hwait,Option.bind_some]
  change (if q.ret ≤ 0 then _ else _) = _
  rw [if_neg hfirst]
  change (if _ then _ else _) = _
  rw [if_neg (hsend _),hagain,Option.bind_some]
  change (if p.ret ≤ 0 then _ else _) = _
  rw [if_neg hsecond]
  change Option.map _ (if s.localCandidates.length < agentMaxCandidates then _ else _) = _
  rw [if_pos hroom]
  rfl

theorem gatherAddress_answered (zeroed : RecvMsg StunClass StunMethod Address) (addr : Address)
    {server : Option (IceServer Address)} {read : List StunPoll} {later : Nat}
    (hsend : ∀ k, ¬env.send k < 0) (hanswered : Answered env s.now server read later)
    (hpolls : s.polls = read ++ rest)
    (hroom : s.localCandidates.length + (candidateType server).toList.length ≤ agentMaxCandidates) :
    ∃ t, gatherAddress env zeroed s (server,addr) = some t ∧ t.now = later ∧ t.polls = rest ∧
      t.localCandidates.map IceCandidate.type =
        s.localCandidates.map IceCandidate.type ++ (candidateType server).toList := by
  cases hanswered with
  | host => exact ⟨_,if_pos hroom,rfl,hpolls,List.map_append⟩
  | ignored server hstun hturn =>
    refine ⟨s,?_,rfl,hpolls,?_⟩
    · rw [gatherAddress,if_neg (by simp [hstun]),if_neg (by simp [hturn])]
    · simp [candidateType,hstun,hturn]
  | stun server before p hstun hread hfits =>
    have htype : candidateType (some server) = some .srflx := if_pos hstun
    rw [htype] at hroom
    rw [List.append_assoc] at hpolls
    obtain ⟨log,mapped,hcall⟩ := agentCreateStunAddr_answered hsend hread hfits hpolls hroom
    rw [gatherAddress,if_pos hstun,hcall]
    refine ⟨_,rfl,rfl,rfl,?_⟩
    rw [htype,List.map_append]
    rfl
  | turn server before between q p hstun hturn hrefused hgranted hfits hfits' =>
    have htype : candidateType (some server) = some .relay := by simp [candidateType,hstun,hturn]
    rw [htype] at hroom
    rw [List.append_assoc,List.cons_append,List.append_assoc] at hpolls
    obtain ⟨log,relayed,hcall⟩ :=
      agentCreateTurnAddr_answered hsend hrefused hgranted hfits hfits' hpolls hroom
    rw [gatherAddress,if_neg (by simp [hstun]),if_pos hturn,hcall]
    refine ⟨_,rfl,rfl,rfl,?_⟩
    rw [htype,List.map_append]
    rfl

theorem gatherAddresses_answered {jobs : List (Option (IceServer Address) × Address)} {reads : List StunPoll}
    {now : Nat} (zeroed : RecvMsg StunClass StunMethod Address) (hsend : ∀ k, ¬env.send k < 0)
    (hanswered : AllAnswered env now jobs reads) (hnow : s.now = now) (hpolls : s.polls = reads ++ rest)
    (hroom : s.localCandidates.length + (jobs.filterMap fun job => candidateType job.1).length ≤
      agentMaxCandidates) :
    ∃ t, runEvents (gatherAddress env zeroed) s jobs = some t ∧ t.polls = rest ∧
      t.localCandidates.map IceCandidate.type =
        s.localCandidates.map IceCandidate.type ++ jobs.filterMap fun job => candidateType job.1 := by
  induction hanswered generalizing s with
  | nil now => exact ⟨s,rfl,hpolls,(List.append_nil _).symm⟩
  | cons now later server addr jobs read reads hfirst hlater ih =>
    have htypes : ((server,addr) :: jobs).filterMap (fun job => candidateType job.1) =
        (candidateType server).toList ++ jobs.filterMap fun job => candidateType job.1 := by
      rw [List.filterMap_cons]
      cases candidateType server <;> rfl
    rw [htypes,List.length_append] at hroom
    rw [← hnow] at hfirst
    rw [List.append_assoc] at hpolls
    obtain ⟨u,hu,hlate,hleft,htype⟩ :=
      gatherAddress_answered zeroed addr hsend hfirst hpolls (by omega)
    have hlength := congrArg List.length htype
    rw [List.length_append,List.length_map,List.length_map] at hlength
    obtain ⟨t,ht,hrest,hlater⟩ := ih hlate hleft (by omega)
    refine ⟨t,?_,hrest,?_⟩
    · rw [runEvents_cons,hu]
      exact ht
    · rw [hlater,htype,List.append_assoc,htypes]

end Complete

end Esp32Ipc
