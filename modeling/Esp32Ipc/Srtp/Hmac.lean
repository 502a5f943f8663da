import Mathlib.Data.Vector.Basic
import Esp32Ipc.Framework.KeyedHash
import Esp32Ipc.Framework.Run

/-!
# HMAC-SHA1 on mbedTLS

`hmac_mbedtls.c` of the libsrtp patch. mbedTLS is a parameter: four calls on a context of its own,
of which any may fail, and what its documentation says of those that succeed. Nothing is known of a
context in which a call has failed until a key is set again.
-/

namespace Esp32Ipc

open Framework

inductive SrtpAuthStatus where
  | ok
  | badParam
  | allocFail
  | authFail
  | algoFail
  deriving DecidableEq, Repr

def sha1BlockLen : Nat := 64

/-- `mbedtls_md_hmac_starts`, `_update`, `_finish` and `_reset`: zero on success. -/
structure MbedtlsMd (Ctx : Type) where
  hmacStarts : Ctx → List UInt8 → Int × Ctx
  hmacUpdate : Ctx → List UInt8 → Int × Ctx
  hmacFinish : Ctx → Int × Vector UInt8 20 × Ctx
  hmacReset : Ctx → Int × Ctx

/-- What mbedTLS documents of the calls that succeed: a context that is `Keyed` has its key set, one
that is `Fed` has been given the message since. -/
structure MbedtlsMd.Documented {Ctx : Type} (mbedtls : MbedtlsMd Ctx)
    (sha1 : List UInt8 → Vector UInt8 20) (Keyed : Ctx → List UInt8 → Prop)
    (Fed : Ctx → List UInt8 → List UInt8 → Prop) : Prop where
  starts : ∀ md key, (mbedtls.hmacStarts md key).1 = 0 → Fed (mbedtls.hmacStarts md key).2 key []
  update : ∀ md key message input, Fed md key message → (mbedtls.hmacUpdate md input).1 = 0 →
    Fed (mbedtls.hmacUpdate md input).2 key (message ++ input)
  finish : ∀ md key message, Fed md key message → (mbedtls.hmacFinish md).1 = 0 →
    (mbedtls.hmacFinish md).2.1.toList = hmac (fun m => (sha1 m).toList) sha1BlockLen key message ∧
      Keyed (mbedtls.hmacFinish md).2.2 key
  reset : ∀ md key, Keyed md key → (mbedtls.hmacReset md).1 = 0 → Fed (mbedtls.hmacReset md).2 key []
  keyed : ∀ md key message, Fed md key message → Keyed md key

section Auth

variable {Ctx : Type} (mbedtls : MbedtlsMd Ctx)

def srtpHmacMbedtlsInit (md : Ctx) (key : List UInt8) : SrtpAuthStatus × Ctx :=
  if key.length > 20 then (.badParam,md)
  else
    let (ret, md) := mbedtls.hmacStarts md key
    (if ret ≠ 0 then .authFail else .ok, md)

def srtpHmacMbedtlsStart (md : Ctx) : SrtpAuthStatus × Ctx :=
  let (ret, md) := mbedtls.hmacReset md
  (if ret ≠ 0 then .authFail else .ok, md)

def srtpHmacMbedtlsUpdate (md : Ctx) (message : List UInt8) : SrtpAuthStatus × Ctx :=
  let (ret, md) := mbedtls.hmacUpdate md message
  (if ret ≠ 0 then .authFail else .ok, md)

/-- The status, the octets written to `result` and the context. -/
def srtpHmacMbedtlsCompute (md : Ctx) (message : List UInt8) (tagLen : Int) :
    SrtpAuthStatus × List UInt8 × Ctx :=
  if tagLen > 20 then (.badParam,[],md)
  else
    let (ret, md) := mbedtls.hmacUpdate md message
    if ret ≠ 0 then (.authFail,[],md)
    else
      let (ret, hashValue, md) := mbedtls.hmacFinish md
      if ret ≠ 0 then (.authFail,[],md)
      else
        let result := hashValue.toList.take tagLen.toNat
        let (ret, md) := mbedtls.hmacReset md
        (if ret ≠ 0 then .authFail else .ok, result, md)

/-- What libsrtp asks of one authentication context. -/
inductive AuthCall where
  | init (key : List UInt8)
  | start
  | update (message : List UInt8)
  | compute (message : List UInt8) (tagLen : Int)

def authCall (md : Ctx) : AuthCall → SrtpAuthStatus × Ctx
  | .init key => srtpHmacMbedtlsInit mbedtls md key
  | .start => srtpHmacMbedtlsStart mbedtls md
  | .update message => srtpHmacMbedtlsUpdate mbedtls md message
  | .compute message tagLen =>
    let out := srtpHmacMbedtlsCompute mbedtls md message tagLen
    (out.1,out.2.2)

/-- What a caller that looks at every status knows: the key in use, and the message so far. -/
structure AuthSession where
  key : List UInt8
  message : List UInt8
  deriving DecidableEq, Repr

def AuthSession.after (session : Option AuthSession) (call : AuthCall) (status : SrtpAuthStatus) :
    Option AuthSession :=
  match status with
  | .badParam => session
  | .ok =>
    match call with
    | .init key => some ⟨key,[]⟩
    | .start => session.map fun known => { known with message := [] }
    | .update message => session.map fun known => { known with message := known.message ++ message }
    | .compute _ _ => session.map fun known => { known with message := [] }
  | _ => none

structure AuthState (Ctx : Type) where
  md : Ctx
  session : Option AuthSession

/-- As `mbedtls_md_setup` leaves it, nothing is known. -/
def AuthState.start (md : Ctx) : AuthState Ctx := ⟨md,none⟩

def authStep (s : AuthState Ctx) (call : AuthCall) : Option (AuthState Ctx) :=
  let out := authCall mbedtls s.md call
  some ⟨out.2,AuthSession.after s.session call out.1⟩

end Auth

section Session

variable {Ctx : Type} {mbedtls : MbedtlsMd Ctx} {sha1 : List UInt8 → Vector UInt8 20}
  {Keyed : Ctx → List UInt8 → Prop} {Fed : Ctx → List UInt8 → List UInt8 → Prop}
  {s t : AuthState Ctx} {md md' : Ctx} {message tag : List UInt8} {tagLen : Int}

/-- What the caller knows is so. -/
def AuthState.Sound (Fed : Ctx → List UInt8 → List UInt8 → Prop) (s : AuthState Ctx) : Prop :=
  ∀ known, s.session = some known → Fed s.md known.key known.message

theorem AuthState.Sound.start (md : Ctx) : (AuthState.start md).Sound Fed := by
  intro known h
  cases h

theorem AuthState.Sound.refused : AuthState.Sound Fed ⟨md,none⟩ := by
  intro known h
  cases h

theorem AuthState.Sound.called {session : Option AuthSession} {call : AuthCall} {ret : Int}
    (h : ret = 0 → AuthState.Sound Fed ⟨md',AuthSession.after session call .ok⟩) :
    AuthState.Sound Fed ⟨md',AuthSession.after session call (if ret ≠ 0 then .authFail else .ok)⟩ := by
  by_cases hret : ret = 0
  · rw [if_neg (not_not.mpr hret)]
    exact h hret
  · rw [if_pos hret]
    exact .refused

/-- How a call of `compute` ends: refused, failed, or with the tag. -/
inductive ComputeExit (mbedtls : MbedtlsMd Ctx) (md : Ctx) (message : List UInt8) (tagLen : Int) :
    SrtpAuthStatus × List UInt8 × Ctx → Prop where
  | refused (h : tagLen > 20) : ComputeExit mbedtls md message tagLen (.badParam,[],md)
  | failed (result : List UInt8) (md' : Ctx) :
      ComputeExit mbedtls md message tagLen (.authFail,result,md')
  | done (h : tagLen ≤ 20) (fed finished md' : Ctx) (hash : Vector UInt8 20)
      (hupdate : mbedtls.hmacUpdate md message = (0,fed))
      (hfinish : mbedtls.hmacFinish fed = (0,hash,finished))
      (hreset : mbedtls.hmacReset finished = (0,md')) :
      ComputeExit mbedtls md message tagLen (.ok,hash.toList.take tagLen.toNat,md')

theorem compute_exit (mbedtls : MbedtlsMd Ctx) (md : Ctx) (message : List UInt8) (tagLen : Int) :
    ComputeExit mbedtls md message tagLen (srtpHmacMbedtlsCompute mbedtls md message tagLen) := by
  by_cases hlen : tagLen > 20
  · simp only [srtpHmacMbedtlsCompute,if_pos hlen]
    exact .refused hlen
  obtain ⟨updated,fed,hupdate⟩ : ∃ ret md', mbedtls.hmacUpdate md message = (ret,md') := ⟨_,_,rfl⟩
  obtain ⟨ended,hash,finished,hfinish⟩ : ∃ ret hash md', mbedtls.hmacFinish fed = (ret,hash,md') :=
    ⟨_,_,_,rfl⟩
  obtain ⟨restarted,md',hreset⟩ : ∃ ret md', mbedtls.hmacReset finished = (ret,md') := ⟨_,_,rfl⟩
  simp only [srtpHmacMbedtlsCompute,if_neg hlen,hupdate,hfinish,hreset]
  by_cases hu : updated ≠ 0
  · rw [if_pos hu]
    exact .failed [] fed
  by_cases hf : ended ≠ 0
  · rw [if_neg hu,if_pos hf]
    exact .failed [] finished
  rw [if_neg hu,if_neg hf]
  by_cases hr : restarted ≠ 0
  · rw [if_pos hr]
    exact .failed _ md'
  · rw [if_neg hr]
    cases not_not.mp hu
    cases not_not.mp hf
    cases not_not.mp hr
    exact .done (not_lt.mp hlen) fed finished md' hash hupdate hfinish hreset

/-- A good tag: mbedTLS was given the whole message and has started over. -/
theorem MbedtlsMd.Documented.computed (h : mbedtls.Documented sha1 Keyed Fed)
    {key before : List UInt8} (hfed : Fed md key before)
    (hcompute : srtpHmacMbedtlsCompute mbedtls md message tagLen = (.ok,tag,md')) :
    tag = (hmac (fun m => (sha1 m).toList) sha1BlockLen key (before ++ message)).take tagLen.toNat ∧
      tagLen ≤ 20 ∧ Fed md' key [] := by
  have hexit := compute_exit mbedtls md message tagLen
  rw [hcompute] at hexit
  cases hexit with
  | done hlen fed finished _ hash hupdate hfinish hreset =>
    have hfed' : Fed fed key (before ++ message) := by
      have hu := h.update md key before message hfed
      rw [hupdate] at hu
      exact hu rfl
    have hdigest := h.finish fed key (before ++ message) hfed'
    rw [hfinish] at hdigest
    have hstarted := h.reset finished key (hdigest rfl).2
    rw [hreset] at hstarted
    exact ⟨congrArg (List.take tagLen.toNat) (hdigest rfl).1,hlen,hstarted rfl⟩

theorem AuthState.Sound.step (h : mbedtls.Documented sha1 Keyed Fed) (s : AuthState Ctx)
    (call : AuthCall) (t : AuthState Ctx) (hs : s.Sound Fed) (hstep : authStep mbedtls s call = some t) :
    t.Sound Fed := by
  cases Option.some.inj hstep
  cases call with
  | init key =>
    by_cases hlen : key.length > 20
    · simpa only [authCall,srtpHmacMbedtlsInit,if_pos hlen,AuthSession.after] using hs
    simp only [authCall,srtpHmacMbedtlsInit,if_neg hlen]
    apply AuthState.Sound.called
    intro hret known hknown
    cases hknown
    exact h.starts s.md key hret
  | start =>
    simp only [authCall,srtpHmacMbedtlsStart]
    apply AuthState.Sound.called
    intro hret known hknown
    obtain ⟨before,hbefore,rfl⟩ := Option.map_eq_some_iff.mp hknown
    exact h.reset s.md before.key (h.keyed _ _ _ (hs before hbefore)) hret
  | update piece =>
    simp only [authCall,srtpHmacMbedtlsUpdate]
    apply AuthState.Sound.called
    intro hret known hknown
    obtain ⟨before,hbefore,rfl⟩ := Option.map_eq_some_iff.mp hknown
    exact h.update s.md before.key before.message piece (hs before hbefore) hret
  | compute piece tagLen =>
    have hexit := compute_exit mbedtls s.md piece tagLen
    simp only [authCall]
    generalize hout : srtpHmacMbedtlsCompute mbedtls s.md piece tagLen = out at hexit ⊢
    cases hexit with
    | refused => exact hs
    | failed => exact .refused
    | done =>
      intro known hknown
      obtain ⟨before,hbefore,rfl⟩ := Option.map_eq_some_iff.mp hknown
      exact (h.computed (hs before hbefore) hout).2.2

/-- In every session, whatever calls have failed in it: a tag that `compute` reports as good for a
caller that knows key and message is the start of their HMAC, however the message was cut up, and the
context is ready for the next packet. -/
theorem compute_tag (h : mbedtls.Documented sha1 Keyed Fed) {md : Ctx} {calls : List AuthCall}
    {known : AuthSession} (hrun : runEvents (authStep mbedtls) (AuthState.start md) calls = some s)
    (hknown : s.session = some known)
    (hcompute : srtpHmacMbedtlsCompute mbedtls s.md message tagLen = (.ok,tag,md')) :
    tag = (hmac (fun m => (sha1 m).toList) sha1BlockLen known.key (known.message ++ message)).take
        tagLen.toNat ∧ tagLen ≤ 20 ∧ Fed md' known.key [] := by
  have hsound := runEvents_invariant (AuthState.Sound.step h) (.start md) hrun
  exact h.computed (hsound known hknown) hcompute

end Session

section TestCase

/-- The contexts of mbedTLS with the outcome of the calls to come; a call that fails leaves the inner
hash in any state. -/
structure ScriptedMd where
  failures : List (Option (List UInt8))
  hmac : HmacContext
  deriving DecidableEq, Repr

/-- One call: `change` on success. -/
def ScriptedMd.call (c : ScriptedMd) (change : HmacContext → HmacContext) : Int × ScriptedMd :=
  match c.failures with
  | some junk :: failures => (-1,⟨failures,{ c.hmac with stream := junk }⟩)
  | _ => (0,⟨c.failures.tail,change c.hmac⟩)

def scriptedMbedtls (sha1 : List UInt8 → Vector UInt8 20) : MbedtlsMd ScriptedMd where
  hmacStarts c key := c.call fun _ => HmacContext.keyed (fun m => (sha1 m).toList) sha1BlockLen key
  hmacUpdate c input := c.call fun md => md.absorb input
  hmacFinish c :=
    let out := c.call fun md => { md with stream := [] }
    (out.1,sha1 (c.hmac.outer ++ (sha1 c.hmac.stream).toList),out.2)
  hmacReset c := c.call fun md => md.restart

def ScriptedMd.Keyed (sha1 : List UInt8 → Vector UInt8 20) (c : ScriptedMd) (key : List UInt8) : Prop :=
  c.hmac.HasKey (fun m => (sha1 m).toList) sha1BlockLen key

def ScriptedMd.Fed (sha1 : List UInt8 → Vector UInt8 20) (c : ScriptedMd) (key message : List UInt8) :
    Prop :=
  c.Keyed sha1 key ∧ c.hmac.HasMessage message

theorem ScriptedMd.call_ok {c : ScriptedMd} {change : HmacContext → HmacContext}
    (h : (c.call change).1 = 0) : (c.call change).2.hmac = change c.hmac := by
  rw [ScriptedMd.call] at h ⊢
  split at h
  · cases h
  · rfl

theorem scriptedMbedtls_documented (sha1 : List UInt8 → Vector UInt8 20) :
    (scriptedMbedtls sha1).Documented sha1 (ScriptedMd.Keyed sha1) (ScriptedMd.Fed sha1) where
  starts md key h := by
    have hmd := ScriptedMd.call_ok h
    rw [ScriptedMd.Fed,ScriptedMd.Keyed,scriptedMbedtls,hmd]
    exact ⟨HmacContext.keyed_hasKey,HmacContext.keyed_hasMessage⟩
  update md key message input hfed h := by
    have hmd := ScriptedMd.call_ok h
    rw [ScriptedMd.Fed,ScriptedMd.Keyed,scriptedMbedtls,hmd]
    exact ⟨hfed.1,hfed.2.absorb input⟩
  finish md key message hfed h := by
    have hmd := ScriptedMd.call_ok (c := md) h
    constructor
    · exact HmacContext.HasKey.digest_eq hfed.1 hfed.2
    · change HmacContext.HasKey _ _ (ScriptedMd.call _ _).2.hmac key
      rw [hmd]
      exact hfed.1
  reset md key hkeyed h := by
    have hmd := ScriptedMd.call_ok h
    rw [ScriptedMd.Fed,ScriptedMd.Keyed,scriptedMbedtls,hmd]
    exact ⟨hkeyed,HmacContext.restart_hasMessage⟩
  keyed md key message hfed := hfed.1

/-- The test vector of the source: its key, "Hi There" and the tag. -/
def hmacTestKey : List UInt8 := List.replicate 20 0x0b

def hmacTestTag : Vector UInt8 20 :=
  #v[0xb6,0x17,0x31,0x86,0x55,0x05,0x72,0x64,0xe2,0x8b,0xc0,0xb6,0xfb,0x37,0x8c,0x8e,0xf1,0x46,0xbe,0x00]

/-- SHA-1 at the two messages that the vector hashes. -/
def sha1OfTestCase (message : List UInt8) : Vector UInt8 20 :=
  if message = List.replicate 20 0x3d ++ List.replicate 44 0x36 ++ [0x48,0x69,0x20,0x54,0x68,0x65,0x72,0x65]
  then #v[0x37,0x66,0x37,0xc8,0x92,0x3d,0xc5,0x95,0xe4,0x1a,0x27,0x97,0x2e,0x99,0x51,0x21,0x1d,0x40,0xce,0x98]
  else hmacTestTag

/-- The message comes in two pieces, after an attempt that failed and a key set again. -/
def hmacTestCalls : List AuthCall :=
  [.init hmacTestKey,.update [0x48,0x69],.init hmacTestKey,.start,.update [0x48,0x69,0x20]]

def hmacTestState : AuthState ScriptedMd where
  md := ⟨[],(HmacContext.keyed (fun m => (sha1OfTestCase m).toList) sha1BlockLen hmacTestKey).absorb
    [0x48,0x69,0x20]⟩
  session := some ⟨hmacTestKey,[0x48,0x69,0x20]⟩

theorem compute_tag_testCase :
    runEvents (authStep (scriptedMbedtls sha1OfTestCase))
        (AuthState.start ⟨[none,some [1,2,3]],⟨[],[],[]⟩⟩) hmacTestCalls = some hmacTestState ∧
      ∃ md', srtpHmacMbedtlsCompute (scriptedMbedtls sha1OfTestCase) hmacTestState.md
          [0x54,0x68,0x65,0x72,0x65] 10 = (.ok,hmacTestTag.toList.take 10,md') ∧
        hmacTestTag.toList.take 10 = (hmac (fun m => (sha1OfTestCase m).toList) sha1BlockLen hmacTestKey
          ([0x48,0x69,0x20] ++ [0x54,0x68,0x65,0x72,0x65])).take (10 : Int).toNat ∧ (10 : Int) ≤ 20 ∧
        md'.Fed sha1OfTestCase hmacTestKey [] := by
  have hrun : runEvents (authStep (scriptedMbedtls sha1OfTestCase))
    (AuthState.start ⟨[none,some [1,2,3]],⟨[],[],[]⟩⟩) hmacTestCalls = some hmacTestState := rfl
  have hcompute : srtpHmacMbedtlsCompute (scriptedMbedtls sha1OfTestCase) hmacTestState.md
    [0x54,0x68,0x65,0x72,0x65] 10 =
      (.ok,hmacTestTag.toList.take 10,⟨[],hmacTestState.md.hmac.restart⟩) := rfl
  exact ⟨hrun,_,hcompute,compute_tag (scriptedMbedtls_documented sha1OfTestCase) hrun rfl hcompute⟩

end TestCase

end Esp32Ipc
