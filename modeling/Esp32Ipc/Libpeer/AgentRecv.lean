import Esp32Ipc.Framework.WrappedClock

/-!
# Waiting for a STUN reply

`agent_socket_recv_stun` polls the socket until the reply it expects is there, the socket fails or
the time is up. The time is up when the clock, a 32-bit count of milliseconds, is no longer below
the deadline taken from it at the call.
-/

namespace Esp32Ipc

open Framework

/-- `ports_get_epoch_time()` when `elapsed` milliseconds have passed since it read `start`. -/
def portsGetEpochTime (start : UInt32) (elapsed : Nat) : UInt32 := start + UInt32.ofNat elapsed

section Wait

variable {StunClass StunMethod : Type}

/-- What the wait reads and writes of `StunMessage`. -/
structure StunMessage (StunClass StunMethod : Type) where
  buf : List UInt8
  stunclass : StunClass
  stunmethod : StunMethod

/-- A pass of the loop: what `agent_socket_recv` returns, `msg->buf` as it leaves it, and the time
that has passed since the call when the loop is checked. -/
structure StunPoll where
  ret : Int
  buf : List UInt8
  elapsed : Nat

/-- What the call returns, the message it leaves and the number of polls it waited through. -/
structure StunReply (StunClass StunMethod : Type) where
  ret : Int
  msg : StunMessage StunClass StunMethod
  waited : Nat

def StunReply.later (r : StunReply StunClass StunMethod) : StunReply StunClass StunMethod :=
  { r with waited := r.waited + 1 }

variable (stunParse : List UInt8 → StunClass × StunMethod) (expectClass : StunClass)
  (expectMethod : StunMethod)

/-- `stun_parse_msg_buf`; how the class and the method are read from the buffer is `stunParse`. -/
def stunParseMsgBuf (msg : StunMessage StunClass StunMethod) : StunMessage StunClass StunMethod :=
  { msg with stunclass := (stunParse msg.buf).1, stunmethod := (stunParse msg.buf).2 }

/-- The loop of `agent_socket_recv_stun`; `none` is still waiting after these polls. -/
def recvStunLoop [DecidableEq StunClass] [DecidableEq StunMethod] (start deadline : UInt32) :
    List StunPoll → StunMessage StunClass StunMethod → Option (StunReply StunClass StunMethod)
  | [], _ => none
  | p :: polls, msg =>
    -- `continue` and the end of the body both go to the check
    let check (msg : StunMessage StunClass StunMethod) :=
      if portsGetEpochTime start p.elapsed < deadline then
        (recvStunLoop start deadline polls msg).map StunReply.later
      else some ⟨0,msg,0⟩
    let msg := { msg with buf := p.buf }
    if p.ret < 0 then some ⟨p.ret,msg,0⟩
    else if p.ret > 0 then
      let msg := stunParseMsgBuf stunParse msg
      if msg.stunclass = expectClass ∧ msg.stunmethod = expectMethod then some ⟨p.ret,msg,0⟩
      else check msg
    else check msg

def agentSocketRecvStun [DecidableEq StunClass] [DecidableEq StunMethod] (start : UInt32)
    (timeoutMs : Nat) (polls : List StunPoll) (msg : StunMessage StunClass StunMethod) :
    Option (StunReply StunClass StunMethod) :=
  recvStunLoop stunParse expectClass expectMethod start
    (portsGetEpochTime start 0 + UInt32.ofNat timeoutMs) polls msg

def StunPoll.Matches (p : StunPoll) : Prop :=
  0 < p.ret ∧ (stunParse p.buf).1 = expectClass ∧ (stunParse p.buf).2 = expectMethod

/-- In real time, the poll is the one to end the wait. -/
def StunPoll.Final (timeoutMs : Nat) (p : StunPoll) : Prop :=
  p.ret < 0 ∨ p.Matches stunParse expectClass expectMethod ∨ timeoutMs ≤ p.elapsed

/-- The wait ends at the first poll that is to end it, with what that poll says: the error of the
socket, the datagram of the expected kind left in `msg`, or nothing. -/
structure HonoursTimeout (timeoutMs : Nat) (polls : List StunPoll)
    (reply : Option (StunReply StunClass StunMethod)) : Prop where
  waiting : reply = none → ∀ p ∈ polls, ¬p.Final stunParse expectClass expectMethod timeoutMs
  ended : ∀ r, reply = some r → ∃ before p after, polls = before ++ p :: after ∧
    (∀ q ∈ before, ¬q.Final stunParse expectClass expectMethod timeoutMs) ∧
    r.waited = before.length ∧
    (p.ret < 0 ∧ r.ret = p.ret ∨
      p.Matches stunParse expectClass expectMethod ∧ r.ret = p.ret ∧
        r.msg = ⟨p.buf,expectClass,expectMethod⟩ ∨
      ¬p.ret < 0 ∧ ¬p.Matches stunParse expectClass expectMethod ∧ timeoutMs ≤ p.elapsed ∧
        r.ret = 0)

/-- The clock reading of the check and the deadline compare as the times do: no wrap of the clock
lies between an early check and the deadline, and a due check does not read less than the deadline
after a wrap. -/
def StunPoll.ClockFits (start : UInt32) (timeoutMs : Nat) (p : StunPoll) : Prop :=
  if p.elapsed < timeoutMs then
    (start.toNat + p.elapsed) / 2 ^ 32 = (start.toNat + timeoutMs) / 2 ^ 32
  else (start.toNat + timeoutMs) % 2 ^ 32 ≤ (start.toNat + p.elapsed) % 2 ^ 32

/-- The clock fits at every check that the wait comes to in real time. -/
def ChecksFit (start : UInt32) (timeoutMs : Nat) (polls : List StunPoll) : Prop :=
  ∀ before p after, polls = before ++ p :: after →
    (∀ q ∈ before, ¬q.Final stunParse expectClass expectMethod timeoutMs) →
    ¬p.ret < 0 → ¬p.Matches stunParse expectClass expectMethod → p.ClockFits start timeoutMs

section Clock

variable {start : UInt32} {timeoutMs : Nat} {p : StunPoll}

theorem portsGetEpochTime_toNat (start : UInt32) (elapsed : Nat) :
    (portsGetEpochTime start elapsed).toNat = (start.toNat + elapsed) % 2 ^ 32 :=
  uint32_reading start elapsed

theorem clock_lt_iff (start : UInt32) (timeoutMs elapsed : Nat) :
    portsGetEpochTime start elapsed < portsGetEpochTime start 0 + UInt32.ofNat timeoutMs ↔
      (start.toNat + elapsed) % 2 ^ 32 < (start.toNat + timeoutMs) % 2 ^ 32 := by
  rw [UInt32.lt_iff_toNat_lt,portsGetEpochTime_toNat,uint32_reading,portsGetEpochTime_toNat,
    Nat.add_zero,Nat.mod_add_mod]

theorem clockFits_iff (htimeout : timeoutMs < 2 ^ 31) : p.ClockFits start timeoutMs ↔
    (portsGetEpochTime start p.elapsed < portsGetEpochTime start 0 + UInt32.ofNat timeoutMs ↔
      p.elapsed < timeoutMs) := by
  have hfits : p.ClockFits start timeoutMs ↔
      WrapFits (2 ^ 32) (start.toNat + timeoutMs) (start.toNat + p.elapsed) := by
    simp only [StunPoll.ClockFits,WrapFits,Nat.add_lt_add_iff_left]
  rw [hfits,wrapFits_iff (by omega),clock_lt_iff,Nat.add_lt_add_iff_left]

end Clock

section Loop

variable [DecidableEq StunClass] [DecidableEq StunMethod] {stunParse expectClass expectMethod}
  (start deadline : UInt32) {p : StunPoll} (polls : List StunPoll)

theorem recvStunLoop_failed (msg : StunMessage StunClass StunMethod) (h : p.ret < 0) :
    recvStunLoop stunParse expectClass expectMethod start deadline (p :: polls) msg =
      some ⟨p.ret,{ msg with buf := p.buf },0⟩ := by
  rw [recvStunLoop,if_pos h]

theorem recvStunLoop_matches (msg : StunMessage StunClass StunMethod)
    (h : p.Matches stunParse expectClass expectMethod) :
    recvStunLoop stunParse expectClass expectMethod start deadline (p :: polls) msg =
      some ⟨p.ret,⟨p.buf,expectClass,expectMethod⟩,0⟩ := by
  obtain ⟨hret,hclass,hmethod⟩ := h
  rw [recvStunLoop,if_neg (by omega),if_pos hret]
  simp [stunParseMsgBuf,hclass,hmethod]

theorem recvStunLoop_check (msg : StunMessage StunClass StunMethod) (hret : ¬p.ret < 0)
    (hmatch : ¬p.Matches stunParse expectClass expectMethod) :
    ∃ msg', recvStunLoop stunParse expectClass expectMethod start deadline (p :: polls) msg =
      if portsGetEpochTime start p.elapsed < deadline then
        (recvStunLoop stunParse expectClass expectMethod start deadline polls msg').map
          StunReply.later
      else some ⟨0,msg',0⟩ := by
  by_cases hdatagram : p.ret > 0
  · have hkind : ¬((stunParse p.buf).1 = expectClass ∧ (stunParse p.buf).2 = expectMethod) :=
      fun hkind => hmatch ⟨hdatagram,hkind⟩
    refine ⟨stunParseMsgBuf stunParse { msg with buf := p.buf },?_⟩
    rw [recvStunLoop,if_neg hret,if_pos hdatagram]
    exact if_neg hkind
  · refine ⟨{ msg with buf := p.buf },?_⟩
    rw [recvStunLoop,if_neg hret,if_neg hdatagram]

end Loop

section Honours

variable {stunParse expectClass expectMethod} {start : UInt32} {timeoutMs : Nat} {p : StunPoll}
  {polls : List StunPoll}

theorem checksFit_cons :
    ChecksFit stunParse expectClass expectMethod start timeoutMs (p :: polls) ↔
      (¬p.ret < 0 → ¬p.Matches stunParse expectClass expectMethod → p.ClockFits start timeoutMs) ∧
      (¬p.Final stunParse expectClass expectMethod timeoutMs →
        ChecksFit stunParse expectClass expectMethod start timeoutMs polls) := by
  constructor
  · intro h
    refine ⟨h [] p polls rfl (by simp),?_⟩
    intro hp before q after hsplit hbefore
    apply h (p :: before) q after (by rw [hsplit,List.cons_append])
    exact List.forall_mem_cons.mpr ⟨hp,hbefore⟩
  · intro ⟨hhead,htail⟩ before q after hsplit hbefore
    cases before with
    | nil =>
      obtain ⟨rfl,_⟩ := List.cons.inj hsplit
      exact hhead
    | cons b before =>
      obtain ⟨rfl,htailSplit⟩ := List.cons.inj hsplit
      obtain ⟨hb,hbefore⟩ := List.forall_mem_cons.mp hbefore
      exact htail hb before q after htailSplit hbefore

theorem honours_later (polls : List StunPoll)
    (hp : ¬p.Final stunParse expectClass expectMethod timeoutMs)
    (reply : Option (StunReply StunClass StunMethod)) :
    HonoursTimeout stunParse expectClass expectMethod timeoutMs (p :: polls)
        (reply.map StunReply.later) ↔
      HonoursTimeout stunParse expectClass expectMethod timeoutMs polls reply := by
  constructor
  · intro h
    constructor
    · rintro rfl
      exact (List.forall_mem_cons.mp (h.waiting rfl)).2
    · rintro r rfl
      obtain ⟨before,q,after,hsplit,hbefore,hwaited,hreply⟩ := h.ended r.later rfl
      cases before with
      | nil => exact absurd hwaited (Nat.succ_ne_zero _)
      | cons b before =>
        exact ⟨before,q,after,(List.cons.inj hsplit).2,(List.forall_mem_cons.mp hbefore).2,
          Nat.succ.inj hwaited,hreply⟩
  · intro h
    constructor
    · intro hnone
      exact List.forall_mem_cons.mpr ⟨hp,h.waiting (Option.map_eq_none_iff.mp hnone)⟩
    · intro r hr
      obtain ⟨r,rfl,rfl⟩ := Option.map_eq_some_iff.mp hr
      obtain ⟨before,q,after,hsplit,hbefore,hwaited,hreply⟩ := h.ended r rfl
      exact ⟨p :: before,q,after,by rw [hsplit,List.cons_append],
        List.forall_mem_cons.mpr ⟨hp,hbefore⟩,congrArg Nat.succ hwaited,hreply⟩

theorem not_honours_later (hp : p.Final stunParse expectClass expectMethod timeoutMs)
    (reply : Option (StunReply StunClass StunMethod)) :
    ¬HonoursTimeout stunParse expectClass expectMethod timeoutMs (p :: polls)
      (reply.map StunReply.later) := by
  intro h
  cases reply with
  | none => exact h.waiting rfl p List.mem_cons_self hp
  | some r =>
    obtain ⟨before,q,after,hsplit,hbefore,hwaited,_⟩ := h.ended r.later rfl
    cases before with
    | nil => exact absurd hwaited (Nat.succ_ne_zero _)
    | cons b before =>
      obtain ⟨rfl,_⟩ := List.cons.inj hsplit
      exact hbefore p List.mem_cons_self hp

theorem honours_now {r : StunReply StunClass StunMethod} (hwaited : r.waited = 0)
    (hreply : p.ret < 0 ∧ r.ret = p.ret ∨
      p.Matches stunParse expectClass expectMethod ∧ r.ret = p.ret ∧
        r.msg = ⟨p.buf,expectClass,expectMethod⟩ ∨
      ¬p.ret < 0 ∧ ¬p.Matches stunParse expectClass expectMethod ∧ timeoutMs ≤ p.elapsed ∧
        r.ret = 0) :
    HonoursTimeout stunParse expectClass expectMethod timeoutMs (p :: polls) (some r) := by
  constructor
  · simp
  · rintro r' hr
    obtain rfl := Option.some.inj hr
    exact ⟨[],p,polls,rfl,by simp,hwaited,hreply⟩

theorem not_honours_now (hp : ¬p.Final stunParse expectClass expectMethod timeoutMs)
    {r : StunReply StunClass StunMethod} (hwaited : r.waited = 0) :
    ¬HonoursTimeout stunParse expectClass expectMethod timeoutMs (p :: polls) (some r) := by
  intro h
  obtain ⟨before,q,after,hsplit,_,hlen,hreply⟩ := h.ended r rfl
  rw [hwaited] at hlen
  obtain rfl := List.length_eq_zero_iff.mp hlen.symm
  obtain ⟨rfl,_⟩ := List.cons.inj hsplit
  apply hp
  rcases hreply with herror | hmatch | hdue
  · exact .inl herror.1
  · exact .inr (.inl hmatch.1)
  · exact .inr (.inr hdue.2.2.1)

/-- The wait honours its timeout on a list of polls exactly when the clock fits at every check it
comes to: otherwise it ends early, or goes on past the check that is due. -/
theorem recvStun_honoursTimeout_iff [DecidableEq StunClass] [DecidableEq StunMethod]
    (stunParse : List UInt8 → StunClass × StunMethod) (expectClass : StunClass)
    (expectMethod : StunMethod) (start : UInt32) {timeoutMs : Nat} (htimeout : timeoutMs < 2 ^ 31)
    (polls : List StunPoll) (msg : StunMessage StunClass StunMethod) :
    HonoursTimeout stunParse expectClass expectMethod timeoutMs polls
        (agentSocketRecvStun stunParse expectClass expectMethod start timeoutMs polls msg) ↔
      ChecksFit stunParse expectClass expectMethod start timeoutMs polls := by
  rw [agentSocketRecvStun]
  induction polls generalizing msg with
  | nil =>
    refine iff_of_true ⟨by simp,by simp [recvStunLoop]⟩ ?_
    intro before p after hsplit
    simp at hsplit
  | cons p polls ih =>
    rw [checksFit_cons]
    by_cases hret : p.ret < 0
    · rw [recvStunLoop_failed start _ polls msg hret]
      refine iff_of_true (honours_now rfl (.inl ⟨hret,rfl⟩)) ⟨fun h => absurd hret h,fun h => ?_⟩
      exact absurd (.inl hret) h
    by_cases hmatch : p.Matches stunParse expectClass expectMethod
    · rw [recvStunLoop_matches start _ polls msg hmatch]
      refine iff_of_true (honours_now rfl (.inr (.inl ⟨hmatch,rfl,rfl⟩)))
        ⟨fun _ h => absurd hmatch h,fun h => ?_⟩
      exact absurd (.inr (.inl hmatch)) h
    obtain ⟨msg',hloop⟩ := recvStunLoop_check start
      (portsGetEpochTime start 0 + UInt32.ofNat timeoutMs) polls msg hret hmatch
    have hfinal : p.Final stunParse expectClass expectMethod timeoutMs ↔ timeoutMs ≤ p.elapsed := by
      simp [StunPoll.Final,hret,hmatch]
    rw [hloop,clockFits_iff htimeout]
    by_cases hclock : portsGetEpochTime start p.elapsed <
        portsGetEpochTime start 0 + UInt32.ofNat timeoutMs
    · rw [if_pos hclock,iff_true_left hclock]
      by_cases hearly : p.elapsed < timeoutMs
      · have hp := mt hfinal.mp (by omega)
        have hlater := honours_later polls hp (recvStunLoop stunParse expectClass
          expectMethod start (portsGetEpochTime start 0 + UInt32.ofNat timeoutMs) polls msg')
        rw [ih msg'] at hlater
        exact hlater.trans ⟨fun h => ⟨fun _ _ => hearly,fun _ => h⟩,fun h => h.2 hp⟩
      · -- the check is due, but the clock has wrapped past the deadline
        have hp := hfinal.mpr (by omega)
        exact iff_of_false (not_honours_later hp _) fun h => hearly (h.1 hret hmatch)
    · rw [if_neg hclock,iff_false_left hclock]
      by_cases hearly : p.elapsed < timeoutMs
      · -- the deadline has wrapped, and the clock is still before the wrap
        have hp := mt hfinal.mp (by omega)
        exact iff_of_false (not_honours_now hp rfl) fun h => h.1 hret hmatch hearly
      · refine iff_of_true (honours_now rfl (.inr (.inr ⟨hret,hmatch,by omega,rfl⟩)))
          ⟨fun _ _ => hearly,fun h => absurd (hfinal.mpr (by omega)) h⟩

end Honours

end Wait

section Header

/-- The class bits and the method bits of the type in a STUN header. -/
def stunHeaderKind (buf : List UInt8) : Nat × Nat :=
  let type := (buf.getD 0 0).toNat * 256 + (buf.getD 1 0).toNat
  (type &&& 0x0110,type &&& 0x3eef)

/-- A wait over the wrap of the clock: an empty poll, an allocation error and the binding success
that was asked for, each checked after the wrap. -/
theorem recvStun_honoursTimeout_iff_wrapped :
    HonoursTimeout stunHeaderKind 0x0100 1 1000 [⟨0,[],600⟩,⟨2,[1,0x13],700⟩,⟨2,[1,1],800⟩]
        (agentSocketRecvStun stunHeaderKind 0x0100 1 4294966796 1000
          [⟨0,[],600⟩,⟨2,[1,0x13],700⟩,⟨2,[1,1],800⟩] ⟨[],0,0⟩) ↔
      ChecksFit stunHeaderKind 0x0100 1 4294966796 1000
        [⟨0,[],600⟩,⟨2,[1,0x13],700⟩,⟨2,[1,1],800⟩] :=
  recvStun_honoursTimeout_iff stunHeaderKind 0x0100 1 4294966796 (by decide)
    [⟨0,[],600⟩,⟨2,[1,0x13],700⟩,⟨2,[1,1],800⟩] ⟨[],0,0⟩

/-- Half a second before the wrap the wait for a second is over at its first check, and one that
steps over the deadline and the wrap between two checks goes on. -/
theorem recvStun_atWrap :
    ¬HonoursTimeout stunHeaderKind 0x0100 1 1000 [⟨0,[],1⟩,⟨2,[1,1],2⟩]
        (agentSocketRecvStun stunHeaderKind 0x0100 1 4294966796 1000 [⟨0,[],1⟩,⟨2,[1,1],2⟩]
          ⟨[],0,0⟩) ∧
      ¬HonoursTimeout stunHeaderKind 0x0100 1 1000 [⟨0,[],999⟩,⟨0,[],1001⟩]
        (agentSocketRecvStun stunHeaderKind 0x0100 1 4294966295 1000 [⟨0,[],999⟩,⟨0,[],1001⟩]
          ⟨[],0,0⟩) := by
  constructor
  · have hcall : agentSocketRecvStun stunHeaderKind 0x0100 1 4294966796 1000
        [⟨0,[],1⟩,⟨2,[1,1],2⟩] ⟨[],0,0⟩ = some ⟨0,⟨[],0,0⟩,0⟩ := rfl
    rw [hcall]
    exact not_honours_now (by simp [StunPoll.Final,StunPoll.Matches]) rfl
  · have hcall : agentSocketRecvStun stunHeaderKind 0x0100 1 4294966295 1000
        [⟨0,[],999⟩,⟨0,[],1001⟩] ⟨[],0,0⟩ = none := rfl
    intro h
    have hfinal := h.waiting hcall ⟨0,[],1001⟩ (by simp)
    exact hfinal (.inr (.inr (by decide)))

end Header

end Esp32Ipc
