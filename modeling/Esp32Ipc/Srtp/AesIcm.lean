import Esp32Ipc.Framework.CounterMode

/-!
# AES integer counter mode on mbedTLS

`aes_icm_mbedtls.c` of the libsrtp patch. mbedTLS increments the whole counter block as a big-endian
integer, SRTP numbers the blocks in its last two octets. The block cipher is a parameter, a function
of the key and the counter block.
-/

namespace Esp32Ipc

open Framework

/-- `v128_t`, as sixteen octets. -/
abbrev V128 := Vector UInt8 16

/-- `v.v8[i]`. -/
def v128Octet (v : V128) (i : Nat) : UInt8 := v[i]?.getD 0

def v128Zero : V128 := Vector.replicate 16 0

def v128Xor (x y : V128) : V128 := Vector.zipWith (· ^^^ ·) x y

def srtpSaltLen : Nat := 14

def srtpAes128KeyLen : Nat := 16

def srtpAes256KeyLen : Nat := 32

def srtpAesIcm128KeyLenWsalt : Nat := srtpSaltLen + srtpAes128KeyLen

def srtpAesIcm256KeyLenWsalt : Nat := srtpSaltLen + srtpAes256KeyLen

inductive SrtpErrStatus where
  | ok
  | badParam
  | cipherFail
  deriving DecidableEq, Repr

/-- `srtp_aes_icm_mbedtls_ctx_t`. The key schedule `aes` is represented by its key. -/
structure AesIcmCtx where
  counter : V128
  offset : V128
  aes : List UInt8
  streamBlock : V128
  ncOff : Nat
  keySize : Nat
  deriving DecidableEq, Repr

section Mbedtls

/-- `for (i = 16; i > 0; i--) if (++nonce_counter[i - 1] != 0) break;`, from the octet before `i`. -/
def incrementFrom (counter : V128) : Nat → V128
  | 0 => counter
  | i + 1 =>
    let counter := counter.setIfInBounds i (v128Octet counter i + 1)
    if v128Octet counter i ≠ 0 then counter else incrementFrom counter i

/-- The next counter block, as a big-endian integer one more. -/
def incrementCounter (counter : V128) : V128 := incrementFrom counter 16

variable (cipher : List UInt8 → V128 → V128)

/-- The counter state that `mbedtls_aes_crypt_ctr` is handed. -/
def AesIcmCtx.ctr (c : AesIcmCtx) (h : c.ncOff < 16) : CounterMode V128 UInt8 16 where
  counter := c.counter
  block := c.streamBlock
  used := ⟨c.ncOff,h⟩

def AesIcmCtx.withCtr (c : AesIcmCtx) (s : CounterMode V128 UInt8 16) : AesIcmCtx :=
  { c with counter := s.counter, streamBlock := s.block, ncOff := s.used.val }

/-- `mbedtls_aes_crypt_ctr` in place, `none` for an offset it refuses. -/
def mbedtlsAesCryptCtr (c : AesIcmCtx) (buf : List UInt8) : Option (List UInt8 × AesIcmCtx) :=
  if h : c.ncOff < 16 then
    let out := CounterMode.mixAll (cipher c.aes) incrementCounter (· ^^^ ·) (c.ctr h) buf
    some (out.1,c.withCtr out.2)
  else none

/-- `mbedtls_aes_setkey_enc`, `none` for a key size it refuses. -/
def mbedtlsAesSetkeyEnc (key : List UInt8) (keybits : Nat) : Option (List UInt8) :=
  if keybits = 128 ∨ keybits = 192 ∨ keybits = 256 then some (key.take (keybits / 8)) else none

end Mbedtls

section Cipher

variable (cipher : List UInt8 → V128 → V128)

/-- `srtp_aes_icm_mbedtls_alloc` on the block `icm` it was granted. -/
def srtpAesIcmMbedtlsAlloc (icm : AesIcmCtx) (keyLen : Nat) : SrtpErrStatus × AesIcmCtx :=
  if keyLen ≠ srtpAesIcm128KeyLenWsalt ∧ keyLen ≠ srtpAesIcm256KeyLenWsalt then (.badParam,icm)
  else if keyLen = srtpAesIcm256KeyLenWsalt then (.ok,{ icm with keySize := srtpAes256KeyLen })
  else (.ok,{ icm with keySize := srtpAes128KeyLen })

/-- `memcpy(&v, from, SRTP_SALT_LEN)` into a zeroed block, then octets 14 and 15 set to zero. -/
def saltBlock (source : List UInt8) : V128 :=
  Vector.ofFn fun i => if i.val < srtpSaltLen then source.getD i.val 0 else 0

def srtpAesIcmMbedtlsContextInit (c : AesIcmCtx) (key : List UInt8) : SrtpErrStatus × AesIcmCtx :=
  let c := { c with
    counter := saltBlock (key.drop c.keySize)
    offset := saltBlock (key.drop c.keySize)
    ncOff := 0
    streamBlock := v128Zero }
  match mbedtlsAesSetkeyEnc key (c.keySize * 8) with
  | some aes => (.ok,{ c with aes := aes })
  | none => (.cipherFail,c)

def srtpAesIcmMbedtlsSetIv (c : AesIcmCtx) (iv : V128) : AesIcmCtx :=
  { c with counter := v128Xor c.offset iv, ncOff := 0, streamBlock := v128Zero }

/-- `srtp_aes_icm_mbedtls_encrypt`: the status, the buffer afterwards and the context. -/
def srtpAesIcmMbedtlsEncrypt (c : AesIcmCtx) (buf : List UInt8) :
    SrtpErrStatus × List UInt8 × AesIcmCtx :=
  match mbedtlsAesCryptCtr cipher c buf with
  | some out => (.ok,out.1,out.2)
  | none => (.cipherFail,buf,c)

/-- What a context is used for after `context_init`. -/
inductive AesIcmUse where
  | setIv (iv : V128)
  | encrypt (buf : List UInt8)

def aesIcmUse (c : AesIcmCtx) : AesIcmUse → AesIcmCtx
  | .setIv iv => srtpAesIcmMbedtlsSetIv c iv
  | .encrypt buf => (srtpAesIcmMbedtlsEncrypt cipher c buf).2.2

/-- A key, initialised after whatever the context held, used in any way and then given an IV. -/
def aesIcmSession (icm : AesIcmCtx) (key : List UInt8) (uses : List AesIcmUse) (iv : V128) : AesIcmCtx :=
  srtpAesIcmMbedtlsSetIv (uses.foldl (aesIcmUse cipher) (srtpAesIcmMbedtlsContextInit icm key).2) iv

/-- Successive `encrypt` calls: the status and the output of each. -/
def encryptCalls (c : AesIcmCtx) : List (List UInt8) → List (SrtpErrStatus × List UInt8)
  | [] => []
  | buf :: bufs =>
    ((srtpAesIcmMbedtlsEncrypt cipher c buf).1,(srtpAesIcmMbedtlsEncrypt cipher c buf).2.1) ::
      encryptCalls (srtpAesIcmMbedtlsEncrypt cipher c buf).2.2 bufs

/-- The counter blocks that the calls hand to the block cipher. -/
def encryptCounters (c : AesIcmCtx) : List (List UInt8) → List V128
  | [] => []
  | buf :: bufs =>
    (if h : c.ncOff < 16 then
        CounterMode.counters (cipher c.aes) incrementCounter (· ^^^ ·) (c.ctr h) buf
      else []) ++ encryptCounters (srtpAesIcmMbedtlsEncrypt cipher c buf).2.2 bufs

end Cipher

/-- The last two octets of the block replaced by `j`, big-endian. -/
def withBlockNumber (block : V128) (j : Nat) : V128 :=
  (block.setIfInBounds 14 (UInt8.ofNat (j / 256))).setIfInBounds 15 (UInt8.ofNat j)

/-- The counter of block `j`, as SRTP defines it. -/
def icmCounter (salt : List UInt8) (iv : V128) (j : Nat) : V128 :=
  withBlockNumber (v128Xor (saltBlock salt) iv) j

/-- The SRTP keystream under a key, salt and IV. -/
def icmKeystream (block : V128 → V128) (salt : List UInt8) (iv : V128) (p : Nat) : UInt8 :=
  (block (icmCounter salt iv (p / 16))).get ⟨p % 16,Nat.mod_lt _ (by decide)⟩

section Counters

variable {block : V128}

private theorem v128Octet_set (block : V128) {i : Nat} (hi : i < 16) (x : UInt8) :
    v128Octet (block.setIfInBounds i x) i = x := by simp [v128Octet,hi]

private theorem v128Octet_set_ne (block : V128) {i k : Nat} (h : i ≠ k) (x : UInt8) :
    v128Octet (block.setIfInBounds i x) k = v128Octet block k := by simp [v128Octet,h]

private theorem ofNat_ne_zero {j : Nat} (h : j % 256 ≠ 0) : UInt8.ofNat j ≠ 0 := by
  intro hzero
  have htoNat := congrArg UInt8.toNat hzero
  rw [UInt8.toNat_ofNat'] at htoNat
  exact h htoNat

private theorem ofNat_eq_zero {j : Nat} (h : j % 256 = 0) : UInt8.ofNat j = 0 := by
  apply UInt8.toNat_inj.mp
  rw [UInt8.toNat_ofNat']
  exact h

private theorem withBlockNumber_octets (block : V128) (j : Nat) :
    v128Octet (withBlockNumber block j) 14 = UInt8.ofNat (j / 256) ∧
      v128Octet (withBlockNumber block j) 15 = UInt8.ofNat j := by
  constructor
  · rw [withBlockNumber,v128Octet_set_ne _ (by decide),v128Octet_set _ (by decide)]
  · exact v128Octet_set _ (by decide) _

theorem withBlockNumber_zero (h14 : block[14] = 0) (h15 : block[15] = 0) :
    withBlockNumber block 0 = block := by
  apply Vector.ext
  intro i hi
  by_cases h : i = 14 ∨ i = 15
  · rcases h with rfl | rfl <;> simp [withBlockNumber,h14,h15]
  · rw [not_or] at h
    simp [withBlockNumber,Ne.symm h.1,Ne.symm h.2]

/-- Without a carry out of the last two octets, the increment numbers the next block. -/
theorem incrementCounter_withBlockNumber {j : Nat} (hj : j + 1 < 65536) :
    incrementCounter (withBlockNumber block j) = withBlockNumber block (j + 1) := by
  have hlast : v128Octet (withBlockNumber block j) 15 + 1 = UInt8.ofNat (j + 1) := by
    rw [(withBlockNumber_octets block j).2,UInt8.ofNat_add]
    rfl
  have hset : (withBlockNumber block j).setIfInBounds 15 (UInt8.ofNat (j + 1)) =
      (block.setIfInBounds 14 (UInt8.ofNat (j / 256))).setIfInBounds 15 (UInt8.ofNat (j + 1)) :=
    Vector.setIfInBounds_setIfInBounds _
  rw [incrementCounter,incrementFrom,hlast]
  simp only [v128Octet_set _ (show 15 < 16 by decide)]
  by_cases hcarry : (j + 1) % 256 = 0
  · -- the last octet wraps to zero and the one before it does not
    have hfirst : v128Octet ((withBlockNumber block j).setIfInBounds 15 (UInt8.ofNat (j + 1))) 14 + 1 =
        UInt8.ofNat ((j + 1) / 256) := by
      rw [v128Octet_set_ne _ (by decide),(withBlockNumber_octets block j).1,
        show (j + 1) / 256 = j / 256 + 1 by omega,UInt8.ofNat_add]
      rfl
    have hnonzero : UInt8.ofNat ((j + 1) / 256) ≠ 0 := ofNat_ne_zero (by omega)
    rw [if_neg (not_not.mpr (ofNat_eq_zero hcarry)),incrementFrom,hfirst]
    simp only [v128Octet_set _ (show 14 < 16 by decide)]
    rw [if_pos hnonzero,hset,withBlockNumber]
    apply Vector.ext
    intro i hi
    by_cases h14 : i = 14
    · subst i
      simp
    · simp [Vector.getElem_setIfInBounds,Ne.symm h14]
  · have hnonzero : UInt8.ofNat (j + 1) ≠ 0 := ofNat_ne_zero hcarry
    rw [if_pos hnonzero,hset,withBlockNumber,show (j + 1) / 256 = j / 256 by omega]

theorem incrementCounter_iterate (h14 : block[14] = 0) (h15 : block[15] = 0) {j : Nat}
    (hj : j < 65536) : incrementCounter^[j] block = withBlockNumber block j := by
  induction j with
  | zero => exact (withBlockNumber_zero h14 h15).symm
  | succ j ih =>
    rw [Function.iterate_succ_apply',ih (Nat.lt_of_succ_lt hj),incrementCounter_withBlockNumber hj]

end Counters

section Calls

variable {cipher : List UInt8 → V128 → V128} {key : List UInt8} {start : V128} {p : Nat} {c : AesIcmCtx}

/-- The context is `p` octets behind a start from this counter. -/
structure AesIcmCtx.At (cipher : List UInt8 → V128 → V128) (key : List UInt8) (start : V128) (p : Nat)
    (c : AesIcmCtx) : Prop where
  aes : c.aes = key
  ncOff : c.ncOff < 16
  mode : CounterMode.At (cipher key) incrementCounter start p (c.ctr ncOff)

/-- The keystream that mbedTLS makes from a counter. -/
def ctrKeystream (block : V128 → V128) (start : V128) (p : Nat) : UInt8 :=
  CounterMode.keystream block incrementCounter (by decide : 0 < 16) start p

theorem encrypt_at (h : c.At cipher key start p) (buf : List UInt8) :
    (srtpAesIcmMbedtlsEncrypt cipher c buf).1 = .ok ∧
      (srtpAesIcmMbedtlsEncrypt cipher c buf).2.1 =
        buf.mapIdx (fun i x => x ^^^ ctrKeystream (cipher key) start (p + i)) ∧
      (srtpAesIcmMbedtlsEncrypt cipher c buf).2.2.At cipher key start (p + buf.length) := by
  have haes := h.aes
  subst haes
  have hmix := CounterMode.mixAll_at (· ^^^ ·) (by decide : 0 < 16) h.mode buf
  simp only [srtpAesIcmMbedtlsEncrypt,mbedtlsAesCryptCtr,dif_pos h.ncOff]
  exact ⟨trivial,hmix.1,rfl,Fin.isLt _,hmix.2⟩

theorem encryptCalls_at (h : c.At cipher key start p) (calls : List (List UInt8)) :
    (∀ call ∈ encryptCalls cipher c calls, call.1 = .ok) ∧
      (encryptCalls cipher c calls).flatMap Prod.snd =
        calls.flatten.mapIdx (fun i x => x ^^^ ctrKeystream (cipher key) start (p + i)) := by
  induction calls generalizing c p with
  | nil => simp [encryptCalls]
  | cons buf bufs ih =>
    have hcall := encrypt_at h buf
    have hrest := ih hcall.2.2
    constructor
    · intro call hmem
      rcases List.mem_cons.mp hmem with rfl | hmem
      · exact hcall.1
      · exact hrest.1 call hmem
    · rw [encryptCalls,List.flatMap_cons,hrest.2,hcall.2.1,List.flatten_cons,List.mapIdx_append]
      simp only [Nat.add_assoc,Nat.add_comm buf.length]

theorem encryptCounters_at (h : c.At cipher key start p) {calls : List (List UInt8)} {block : V128}
    (hblock : block ∈ encryptCounters cipher c calls) :
    ∃ j, j * 16 < p + calls.flatten.length ∧ block = incrementCounter^[j] start := by
  induction calls generalizing c p with
  | nil => cases hblock
  | cons buf bufs ih =>
    rw [encryptCounters,dif_pos h.ncOff,List.mem_append] at hblock
    rw [List.flatten_cons,List.length_append,← Nat.add_assoc]
    cases hblock with
    | inl hfirst =>
      rw [h.aes] at hfirst
      obtain ⟨j,hj,hcounter⟩ := CounterMode.counters_at _ (by decide) h.mode hfirst
      exact ⟨j,by omega,hcounter⟩
    | inr hrest => exact ih (encrypt_at h buf).2.2 hrest

end Calls

section Session

variable {cipher : List UInt8 → V128 → V128} {icm : AesIcmCtx} {key salt : List UInt8} {iv : V128}

theorem srtpAesIcmMbedtlsAlloc_keySize {fresh : AesIcmCtx} {keyLen : Nat}
    (halloc : srtpAesIcmMbedtlsAlloc fresh keyLen = (.ok,icm)) :
    keyLen = icm.keySize + srtpSaltLen ∧ (icm.keySize = 16 ∨ icm.keySize = 32) := by
  unfold srtpAesIcmMbedtlsAlloc at halloc
  split_ifs at halloc with hbad hlong
  · cases halloc
  · rw [← (Prod.mk.inj halloc).2]
    exact ⟨hlong,.inr rfl⟩
  · rw [← (Prod.mk.inj halloc).2]
    rw [not_and_or,not_not,not_not] at hbad
    exact ⟨hbad.resolve_right hlong,.inl rfl⟩

theorem contextInit_ok (hsize : icm.keySize = 16 ∨ icm.keySize = 32) (hkey : key.length = icm.keySize)
    (salt : List UInt8) :
    (srtpAesIcmMbedtlsContextInit icm (key ++ salt)).1 = .ok ∧
      (srtpAesIcmMbedtlsContextInit icm (key ++ salt)).2.aes = key ∧
      (srtpAesIcmMbedtlsContextInit icm (key ++ salt)).2.offset = saltBlock salt := by
  have hschedule : mbedtlsAesSetkeyEnc (key ++ salt) (icm.keySize * 8) = some key := by
    rw [mbedtlsAesSetkeyEnc,if_pos (by omega),Nat.mul_div_cancel _ (by decide),← hkey,List.take_left]
  have hsalt : (key ++ salt).drop icm.keySize = salt := by rw [← hkey,List.drop_left]
  simp only [srtpAesIcmMbedtlsContextInit,hschedule,hsalt]
  exact ⟨trivial,trivial,trivial⟩

theorem aesIcmUse_keeps (cipher : List UInt8 → V128 → V128) (c : AesIcmCtx) (use : AesIcmUse) :
    (aesIcmUse cipher c use).aes = c.aes ∧ (aesIcmUse cipher c use).offset = c.offset := by
  cases use with
  | setIv iv => exact ⟨rfl,rfl⟩
  | encrypt buf =>
    by_cases h : c.ncOff < 16
    · simp only [aesIcmUse,srtpAesIcmMbedtlsEncrypt,mbedtlsAesCryptCtr,dif_pos h]
      exact ⟨rfl,rfl⟩
    · simp only [aesIcmUse,srtpAesIcmMbedtlsEncrypt,mbedtlsAesCryptCtr,dif_neg h]
      exact ⟨trivial,trivial⟩

theorem aesIcmUses_keep (cipher : List UInt8 → V128 → V128) (c : AesIcmCtx) (uses : List AesIcmUse) :
    (uses.foldl (aesIcmUse cipher) c).aes = c.aes ∧
      (uses.foldl (aesIcmUse cipher) c).offset = c.offset := by
  induction uses generalizing c with
  | nil => exact ⟨rfl,rfl⟩
  | cons use uses ih =>
    have hfirst := aesIcmUse_keeps cipher c use
    have hrest := ih (aesIcmUse cipher c use)
    exact ⟨hrest.1.trans hfirst.1,hrest.2.trans hfirst.2⟩

/-- `set_iv` starts the keystream over, whatever came before. -/
theorem aesIcmSession_at (hsize : icm.keySize = 16 ∨ icm.keySize = 32) (hkey : key.length = icm.keySize)
    (uses : List AesIcmUse) :
    (aesIcmSession cipher icm (key ++ salt) uses iv).At cipher key (v128Xor (saltBlock salt) iv) 0 := by
  have hinit := contextInit_ok hsize hkey salt
  have hkeep := aesIcmUses_keep cipher (srtpAesIcmMbedtlsContextInit icm (key ++ salt)).2 uses
  refine ⟨hkeep.1.trans hinit.2.1,Nat.zero_lt_succ 15,CounterMode.at_zero ?_ rfl⟩
  change v128Xor (uses.foldl (aesIcmUse cipher) _).offset iv = _
  rw [hkeep.2,hinit.2.2]

private theorem start_octets (h14 : iv[14] = 0) (h15 : iv[15] = 0) :
    (v128Xor (saltBlock salt) iv)[14] = 0 ∧ (v128Xor (saltBlock salt) iv)[15] = 0 := by
  simp [v128Xor,saltBlock,srtpSaltLen,h14,h15]

theorem iterate_icmCounter (h14 : iv[14] = 0) (h15 : iv[15] = 0) {j : Nat} (hj : j < 65536) :
    incrementCounter^[j] (v128Xor (saltBlock salt) iv) = icmCounter salt iv j :=
  incrementCounter_iterate (start_octets h14 h15).1 (start_octets h14 h15).2 hj

theorem ctrKeystream_icm (h14 : iv[14] = 0) (h15 : iv[15] = 0) (block : V128 → V128) {p : Nat}
    (hp : p < 65536 * 16) :
    ctrKeystream block (v128Xor (saltBlock salt) iv) p = icmKeystream block salt iv p := by
  have hblock : p / 16 < 65536 := Nat.div_lt_of_lt_mul (Nat.mul_comm 65536 16 ▸ hp)
  rw [ctrKeystream,CounterMode.keystream,iterate_icmCounter h14 h15 hblock]
  rfl

theorem icmCounter_iv {iv' : V128} {j j' : Nat} (h14 : iv[14] = 0) (h15 : iv[15] = 0)
    (h14' : iv'[14] = 0) (h15' : iv'[15] = 0) (h : icmCounter salt iv j = icmCounter salt iv' j') :
    iv = iv' := by
  apply Vector.ext
  intro i hi
  by_cases hlast : i = 14 ∨ i = 15
  · rcases hlast with rfl | rfl
    · rw [h14,h14']
    · rw [h15,h15']
  · rw [not_or] at hlast
    have hoctet : (icmCounter salt iv j)[i] = (icmCounter salt iv' j')[i] := by rw [h]
    simpa [icmCounter,withBlockNumber,v128Xor,Ne.symm hlast.1,Ne.symm hlast.2] using hoctet

theorem encryptCalls_icm (hsize : icm.keySize = 16 ∨ icm.keySize = 32) (hkey : key.length = icm.keySize)
    (h14 : iv[14] = 0) (h15 : iv[15] = 0) (uses : List AesIcmUse) {calls : List (List UInt8)}
    (hlen : calls.flatten.length ≤ 65536 * 16) :
    (encryptCalls cipher (aesIcmSession cipher icm (key ++ salt) uses iv) calls).flatMap Prod.snd =
      calls.flatten.mapIdx fun p x => x ^^^ icmKeystream (cipher key) salt iv p := by
  rw [(encryptCalls_at (aesIcmSession_at hsize hkey uses) calls).2]
  apply List.ext_getElem
  · rw [List.length_mapIdx,List.length_mapIdx]
  · intro p hp hp'
    rw [List.length_mapIdx] at hp
    rw [List.getElem_mapIdx,List.getElem_mapIdx,Nat.zero_add,ctrKeystream_icm h14 h15 _ (by omega)]

theorem encryptCounters_icm (hsize : icm.keySize = 16 ∨ icm.keySize = 32) (hkey : key.length = icm.keySize)
    (h14 : iv[14] = 0) (h15 : iv[15] = 0) (uses : List AesIcmUse) {calls : List (List UInt8)}
    (hlen : calls.flatten.length ≤ 65536 * 16) {block : V128}
    (hblock : block ∈ encryptCounters cipher (aesIcmSession cipher icm (key ++ salt) uses iv) calls) :
    ∃ j, block = icmCounter salt iv j := by
  obtain ⟨j,hj,hcounter⟩ := encryptCounters_at (aesIcmSession_at hsize hkey uses) hblock
  exact ⟨j,by rw [hcounter,iterate_icmCounter h14 h15 (by omega)]⟩

/-- After `set_iv` the calls, however the data is cut and whatever came before, XOR it with the
SRTP keystream; another pass with the same IV restores it, and different IVs never share a counter
block. -/
theorem aes_icm_keystream {fresh : AesIcmCtx} {keyLen : Nat}
    (halloc : srtpAesIcmMbedtlsAlloc fresh keyLen = (.ok,icm)) (hsalt : salt.length = srtpSaltLen)
    (hkey : key.length + salt.length = keyLen) (h14 : iv[14] = 0) (h15 : iv[15] = 0)
    (uses : List AesIcmUse) (calls : List (List UInt8))
    (hlen : calls.flatten.length ≤ 65536 * 16) :
    (srtpAesIcmMbedtlsContextInit icm (key ++ salt)).1 = .ok ∧
      (∀ call ∈ encryptCalls cipher (aesIcmSession cipher icm (key ++ salt) uses iv) calls,
        call.1 = .ok) ∧
      (encryptCalls cipher (aesIcmSession cipher icm (key ++ salt) uses iv) calls).flatMap Prod.snd =
        calls.flatten.mapIdx (fun p x => x ^^^ icmKeystream (cipher key) salt iv p) ∧
      (∀ uses' calls', calls'.flatten =
          (encryptCalls cipher (aesIcmSession cipher icm (key ++ salt) uses iv) calls).flatMap Prod.snd →
        (encryptCalls cipher (aesIcmSession cipher icm (key ++ salt) uses' iv) calls').flatMap Prod.snd =
          calls.flatten) ∧
      ∀ uses' iv' calls', iv'[14] = 0 → iv'[15] = 0 → iv' ≠ iv →
        calls'.flatten.length ≤ 65536 * 16 →
        ∀ block ∈ encryptCounters cipher (aesIcmSession cipher icm (key ++ salt) uses iv) calls,
          block ∉ encryptCounters cipher (aesIcmSession cipher icm (key ++ salt) uses' iv') calls' := by
  have hsize := (srtpAesIcmMbedtlsAlloc_keySize halloc).2
  have hkeySize : key.length = icm.keySize := by
    have hlenKey := (srtpAesIcmMbedtlsAlloc_keySize halloc).1
    omega
  have hout : (encryptCalls cipher (aesIcmSession cipher icm (key ++ salt) uses iv) calls).flatMap
      Prod.snd = _ := encryptCalls_icm hsize hkeySize h14 h15 uses hlen
  refine ⟨(contextInit_ok hsize hkeySize salt).1,
    (encryptCalls_at (aesIcmSession_at hsize hkeySize uses) calls).1,hout,?_,?_⟩
  · intro uses' calls' hinput
    have hlen' : calls'.flatten.length ≤ 65536 * 16 := by
      rw [hinput,hout,List.length_mapIdx]
      exact hlen
    rw [encryptCalls_icm hsize hkeySize h14 h15 uses' hlen',hinput,hout]
    apply CounterMode.mapIdx_mix_mix
    intro x y
    rw [UInt8.xor_assoc,UInt8.xor_self,UInt8.xor_zero]
  · intro uses' iv' calls' h14' h15' hiv hlen' block hblock hblock'
    obtain ⟨j,hj⟩ := encryptCounters_icm hsize hkeySize h14 h15 uses hlen hblock
    obtain ⟨j',hj'⟩ := encryptCounters_icm hsize hkeySize h14' h15' uses' hlen' hblock'
    exact hiv (icmCounter_iv h14' h15' h14 h15 (hj'.symm.trans hj))

/-- A context of arbitrary contents, keyed, used once, and then given the zero IV. -/
theorem aes_icm_keystream_session :
    let cipher : List UInt8 → V128 → V128 := fun key block => v128Xor block (saltBlock key)
    let icm : AesIcmCtx := ⟨v128Zero,v128Zero,[],v128Zero,7,16⟩
    (encryptCalls cipher (aesIcmSession cipher icm (List.replicate 16 0x2b ++ List.replicate 14 0xf0)
        [.encrypt [9]] v128Zero) [[1],[2,3]]).flatMap Prod.snd =
      [1,2,3].mapIdx fun p x => x ^^^
        icmKeystream (cipher (List.replicate 16 0x2b)) (List.replicate 14 0xf0) v128Zero p := by
  intro cipher icm
  exact (aes_icm_keystream (show srtpAesIcmMbedtlsAlloc ⟨v128Zero,v128Zero,[],v128Zero,7,0⟩ 30 = _
    from rfl) rfl rfl rfl rfl [.encrypt [9]] [[1],[2,3]] (by decide)).2.2.1

end Session

end Esp32Ipc
