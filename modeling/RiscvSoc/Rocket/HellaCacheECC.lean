import RiscvSoc.Rocket.ECC
import RiscvSoc.Rocket.HellaCache

/-!
# The pipeline of the data cache, with a code over its data

The same pipeline as in `RiscvSoc.Rocket.HellaCache`, with what `HellaCache` does about errors. The
data array holds code words. What the second stage has read is decoded there: a request works on the
uncorrected word, and when the decoder says that the word could be corrected,

* the request is not answered (`respValid`);
* the third stage gets the corrected data, and not what the ALU makes of it (`next`);
* the request is sent through the arrays again (`s2Recycle`), with its address translated already
  and its data at hand (`s1Recycled`). Whoever comes next waits.

A request is sent again by way of the registers of the first stage, not by way of their valid bit,
which is up when the processor has just issued a request and at no other time.

The corrected data are those of a whole row, and the third stage takes a double word: it gets the
first of the row. `s1_recycled` has no reset value. It is down from the first cycle in which the
arrays are read and nothing is sent again.

## The code

`CorrectingCode` is what the cache asks of a code, with what makes it one. `secCode` and
`secdedCode` are the two the repository has. A code word is a number, and an error flips one bit of
it.

## What is left out

What `RiscvSoc.Rocket.HellaCache` leaves out. A double word that is read while it is written has an
open code word, as it has an open value there. A bit of the array may be flipped in any cycle.
-/

namespace RiscvSoc

/-! ### Codes -/

/-- A code over double words that corrects one flipped bit. -/
structure CorrectingCode where
  /-- Of a code word. -/
  width : ℕ
  encode : Word → ℕ
  uncorrected : ℕ → Word
  corrected : ℕ → Word
  correctable : ℕ → Bool
  uncorrected_encode : ∀ x, uncorrected (encode x) = x
  correctable_encode : ∀ x, correctable (encode x) = false
  corrected_flip : ∀ x, ∀ i < width, corrected (encode x ^^^ 2 ^ i) = x
  correctable_flip : ∀ x, ∀ i < width, correctable (encode x ^^^ 2 ^ i) = true

/-- `SECCode`. -/
def secCode : CorrectingCode where
  width := SECCode.width 64
  encode x := SECCode.encode 64 x.toNat
  uncorrected y := BitVec.ofNat 64 (SECCode.uncorrected (SECCode.width 64) y)
  corrected y := BitVec.ofNat 64 (SECCode.corrected (SECCode.width 64) y)
  correctable := SECCode.correctable (SECCode.width 64)
  uncorrected_encode x := by
    rw [SECCode.uncorrected_encode (by decide) x.isLt, BitVec.ofNat_toNat, BitVec.setWidth_eq]
  correctable_encode x := by
    rw [SECCode.correctable, SECCode.syndrome_encode (by decide)]
    rfl
  corrected_flip x i hi := by
    rw [SECCode.corrected_flip (by decide) x.isLt hi, BitVec.ofNat_toNat, BitVec.setWidth_eq]
  correctable_flip x i hi := by
    rw [SECCode.correctable, SECCode.syndrome_encode_flip (by decide) hi]
    exact decide_eq_true (Nat.succ_ne_zero i)

/-- `SECDEDCode`. -/
def secdedCode : CorrectingCode where
  width := SECDEDCode.width 64
  encode x := SECDEDCode.encode 64 x.toNat
  uncorrected y := BitVec.ofNat 64 (SECDEDCode.uncorrected (SECCode.width 64) y)
  corrected y := BitVec.ofNat 64 (SECDEDCode.corrected (SECCode.width 64) y)
  correctable := SECDEDCode.correctable (SECCode.width 64)
  uncorrected_encode x := by
    rw [SECDEDCode.uncorrected, SECDEDCode.secWord_encode,
      SECCode.uncorrected_encode (by decide) x.isLt, BitVec.ofNat_toNat, BitVec.setWidth_eq]
  correctable_encode x := SECDEDCode.correctable_encode 64 x.toNat
  corrected_flip x i _ := by
    rw [SECDEDCode.corrected_flip (by decide) x.isLt, BitVec.ofNat_toNat, BitVec.setWidth_eq]
  correctable_flip x i hi := by
    rw [SECDEDCode.correctable_flip hi, SECDEDCode.correctable_encode]
    rfl

namespace CorrectingCode

variable (code : CorrectingCode)

/-- `y` is the code word of `x`, with at most one bit flipped. -/
def Near (y : ℕ) (x : Word) : Prop :=
  y = code.encode x ∨ ∃ i < code.width, y = code.encode x ^^^ 2 ^ i

variable {code} {x : Word} {y : ℕ}

theorem Near.uncorrected_eq (h : code.Near y x) (hc : code.correctable y = false) :
    code.uncorrected y = x := by
  rcases h with rfl | ⟨i, hi, rfl⟩
  · exact code.uncorrected_encode x
  · rw [code.correctable_flip x i hi] at hc
    cases hc

end CorrectingCode

/-! ### Registers and inputs -/

/-- The inputs of one cycle. -/
structure ECCInput (c : HellaCacheConfig) extends HellaInput where
  /-- The code word a double word is read as in the cycle in which it is written. -/
  codeDuringWrite : ℕ
  /-- The bits of the data array that flip at the end of the cycle. -/
  upset : Fin c.ways → ℕ → Fin (2 ^ c.rowwordbits) → ℕ

/-- The registers of `HellaCache`, with code words for double words, and the two of the recycled
requests. -/
structure HellaCacheECC (P : CoherencePolicy) (c : HellaCacheConfig) where
  s1Valid : Bool
  s1Req : HellaReq
  s1ClkEn : Bool
  s1Recycled : Bool
  s2Valid : Bool
  s2Req : HellaReq
  s2NackHit : Bool
  s2TagMatchWay : Fin c.ways → Bool
  s2State : Fin c.ways → P.ClientState
  s2Data : Fin c.ways → Fin (2 ^ c.rowwordbits) → ℕ
  s2StoreBypass : Bool
  s2StoreBypassData : Word
  s2RecycleNext : Bool
  s3Valid : Bool
  s3Req : HellaReq
  s3Way : Fin c.ways → Bool
  s4Valid : Bool
  s4Req : HellaReq
  lrscCount : ℕ
  lrscAddr : ℕ
  metaSet : ℕ
  readIdx : Fin (2 ^ c.rowwordbits)
  readData : Fin c.ways → Fin (2 ^ c.rowwordbits) → ℕ
  data : Fin c.ways → ℕ → Fin (2 ^ c.rowwordbits) → ℕ

namespace HellaCacheECC

variable {P : CoherencePolicy} {c : HellaCacheConfig} (code : CorrectingCode)

/-- The pipeline as it is seen behind the decoders: `s2_data_uncorrected` and the registers that
need no decoder. All that does not depend on an error is computed from here. -/
def decoded (e : HellaCacheECC P c) : HellaCache P c where
  s1Valid := e.s1Valid
  s1Req := e.s1Req
  s1ClkEn := e.s1ClkEn
  s2Valid := e.s2Valid
  s2Req := e.s2Req
  s2NackHit := e.s2NackHit
  s2TagMatchWay := e.s2TagMatchWay
  s2State := e.s2State
  s2Data w k := code.uncorrected (e.s2Data w k)
  s2StoreBypass := e.s2StoreBypass
  s2StoreBypassData := e.s2StoreBypassData
  s3Valid := e.s3Valid
  s3Req := e.s3Req
  s3Way := e.s3Way
  s4Valid := e.s4Valid
  s4Req := e.s4Req
  lrscCount := e.lrscCount
  lrscAddr := e.lrscAddr
  metaSet := e.metaSet
  readIdx := e.readIdx
  readData w k := code.uncorrected (e.readData w k)
  data w row k := code.uncorrected (e.data w row k)

variable [DecidableEq P.ClientState] (md : MetaDataArray P c) (e : HellaCacheECC P c)
variable (i : ECCInput c)

/-! ### The second stage -/

/-- `data.io.resp`. -/
def dataResp (w : Fin c.ways) (k : Fin (2 ^ c.rowwordbits)) : ℕ :=
  if c.isNarrowRead && decide (k.val = 0) then e.readData w e.readIdx else e.readData w k

def s2DataMuxed : Fin (2 ^ c.rowwordbits) → ℕ :=
  (muxWay e.s2TagMatchWay e.s2Data).getD fun _ => 0

def s2DataCorrectable : Bool := code.correctable (e.s2DataMuxed (e.decoded code).s2WordIdx)

theorem rowWords_pos : 0 < 2 ^ c.rowwordbits := Nat.two_pow_pos _

/-- `s2_data_corrected`, as wide as `s3_req.data`. -/
def s2DataCorrected : Word := code.corrected (e.s2DataMuxed ⟨0, rowWords_pos⟩)

def s2RecycleEcc : Bool := e.s2Valid && (e.decoded code).s2Hit && e.s2DataCorrectable code

def s2Recycle : Bool := e.s2RecycleEcc code || e.s2RecycleNext

/-- The second stage has something for the third. -/
def s3En : Bool := e.s2Valid && (e.s2Req.cmd.isWrite || e.s2DataCorrectable code)

/-! ### Who comes next -/

/-- `io.cpu.req.ready`, as far as the recycled requests decide it. -/
def reqReady : Bool := i.reqReady && !e.s2Recycle code

/-- `metaReadArb.io.out.valid`. -/
def metaRead : Bool := i.reqValid || e.s2Recycle code

/-- The address the arrays are read at. -/
def readAddr : ℕ := if e.s2Recycle code then e.s2Req.addr else i.req.addr

/-! ### The answer -/

def respValid : Bool :=
  (e.decoded code).respValid i.toHellaInput && !e.s2DataCorrectable code

/-! ### One cycle -/

def next : HellaCacheECC P c where
  s1Valid := i.reqValid && e.reqReady code i
  s1Req := if e.s2Recycle code then e.s2Req else if i.reqValid then i.req else e.s1Req
  s1ClkEn := e.metaRead code i
  s1Recycled := if e.s1ClkEn then e.s2Recycle code else e.s1Recycled
  s2Valid := (e.decoded code).s1ValidMasked i.toHellaInput
  s2Req :=
    if e.s1ClkEn then
      { e.s1Req with
        addr := (e.decoded code).s1Addr i.toHellaInput
        data :=
          if e.s1Recycled then e.s1Req.data
          else if e.s1Req.cmd.isWrite then i.req.data
          else e.s2Req.data }
    else e.s2Req
  s2NackHit := if e.s1Valid then i.s1Nack else e.s2NackHit
  s2TagMatchWay w :=
    if e.s1ClkEn then (e.decoded code).s1TagMatchWay md i.toHellaInput w else e.s2TagMatchWay w
  s2State w := if e.s1ClkEn then md.state e.metaSet w else e.s2State w
  s2Data w k :=
    if e.s1ClkEn && (e.decoded code).s1TagEqWay md i.toHellaInput w
        && (decide (k.val = 0) || !c.isNarrowRead || (e.decoded code).s1Writeback) then
      e.dataResp w k
    else e.s2Data w k
  s2StoreBypass :=
    if e.s1ClkEn then ((e.decoded code).bypass i.toHellaInput).isSome else e.s2StoreBypass
  s2StoreBypassData :=
    if e.s1ClkEn then ((e.decoded code).bypass i.toHellaInput).getD e.s2StoreBypassData
    else e.s2StoreBypassData
  s2RecycleNext := if e.s1Valid then e.s2RecycleEcc code else e.s2RecycleNext
  s3Valid := (e.decoded code).s2Performs i.toHellaInput && e.s2Req.cmd.isWrite
  s3Req :=
    if e.s3En code then
      { e.s2Req with
        data := if e.s2DataCorrectable code then e.s2DataCorrected code
          else (e.decoded code).amoaluOut }
    else e.s3Req
  s3Way := if e.s3En code then e.s2TagMatchWay else e.s3Way
  s4Valid := e.s3Valid
  s4Req := if e.s3Valid && e.metaRead code i then e.s3Req else e.s4Req
  lrscCount := (e.decoded code).lrscCountNext i.toHellaInput
  lrscAddr :=
    if (e.decoded code).s2ValidMasked i.toHellaInput && (e.decoded code).s2Hit
        && e.s2Req.cmd == .xlr then
      e.s2Req.addr / 2 ^ c.offbits
    else e.lrscAddr
  metaSet := if e.metaRead code i then c.set (e.readAddr code i) else e.metaSet
  readIdx := if e.metaRead code i then c.wordIdx (e.readAddr code i) else e.readIdx
  readData w k :=
    if e.metaRead code i then
      if (e.decoded code).writes w (c.row (e.readAddr code i)) k then i.codeDuringWrite
      else e.data w (c.row (e.readAddr code i)) k
    else e.readData w k
  data w row k :=
    (if (e.decoded code).writes w row k then code.encode e.s3Req.data else e.data w row k)
      ^^^ i.upset w row k

end HellaCacheECC

end RiscvSoc
