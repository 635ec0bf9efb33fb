/-!
# Coherence policies

The policies of `uncore/src/main/scala/coherence.scala`: what a client does to the state of a line
on a hit, a grant, a probe and a cache-control command, and what the L2 agent asks for on behalf of
an acquire. Every `MuxLookup` of the source is a `match` whose last case is the lookup's default.

`CoherencePolicy` is the record of those functions that the L2 agent and its clients consult, and
`MICoherence` … `MESICoherence` are its four instances with uncached transactions.

The second argument of `getProbeType` and `needsOuterRead`, the global state, is always `UInt(0)`
and never read.
-/

namespace RiscvSoc

/-! ### Memory commands -/

/-- The five-bit memory command of `uncore/src/main/scala/consts.scala`. -/
inductive MemCmd
  | xrd | xwr | pfr | pfw | xaSwap | nop | xlr | xsc
  | xaAdd | xaXor | xaOr | xaAnd | xaMin | xaMax | xaMinu | xaMaxu
  | inv | cln
  deriving DecidableEq, Repr

namespace MemCmd

def isAMO : MemCmd → Bool
  | xaSwap | xaAdd | xaXor | xaOr | xaAnd | xaMin | xaMax | xaMinu | xaMaxu => true
  | _ => false

def isWrite (cmd : MemCmd) : Bool := cmd == xwr || cmd == xsc || cmd.isAMO

def isWriteIntent (cmd : MemCmd) : Bool := cmd.isWrite || cmd == pfw || cmd == xlr

end MemCmd

/-! ### The interface -/

/-- What the agent and its clients ask a policy. `getGrantTypeRel` is the overload of
`getGrantType` for releases, `acquireHasData` and `releaseHasData` those of `messageHasData`. -/
structure CoherencePolicy where
  ClientState : Type
  AcquireType : Type
  ProbeType : Type
  ReleaseType : Type
  GrantType : Type
  isHit : MemCmd → ClientState → Bool
  isValid : ClientState → Bool
  needsTransactionOnCacheControl : MemCmd → ClientState → Bool
  newStateOnHit : MemCmd → ClientState → ClientState
  newStateOnCacheControl : MemCmd → ClientState
  newStateOnGrant : GrantType → AcquireType → ClientState
  newStateOnProbe : ProbeType → ClientState → ClientState
  getAcquireTypeOnPrimaryMiss : MemCmd → ClientState → AcquireType
  getAcquireTypeOnSecondaryMiss : MemCmd → ClientState → AcquireType → AcquireType
  getProbeType : AcquireType → ProbeType
  getReleaseTypeOnCacheControl : MemCmd → ReleaseType
  getReleaseTypeOnProbe : ProbeType → ClientState → ReleaseType
  getGrantType : AcquireType → Nat → GrantType
  getGrantTypeRel : ReleaseType → GrantType
  acquireHasData : AcquireType → Bool
  releaseHasData : ReleaseType → Bool
  messageIsUncached : AcquireType → Bool
  needsOuterRead : AcquireType → Bool
  requiresAckForGrant : GrantType → Bool
  /-- The probe type every policy has for taking a line away. -/
  probeInvalidate : ProbeType

namespace CoherencePolicy

variable (P : CoherencePolicy)

def needsWriteback (s : P.ClientState) : Bool := P.needsTransactionOnCacheControl .inv s

def newStateOnWriteback : P.ClientState := P.newStateOnCacheControl .inv

def newStateOnFlush : P.ClientState := P.newStateOnCacheControl .inv

def getReleaseTypeOnVoluntaryWriteback : P.ReleaseType := P.getReleaseTypeOnCacheControl .inv

end CoherencePolicy

/-! ### MI -/

namespace MI

inductive ClientState
  | tileInvalid | tileValid
  deriving DecidableEq, Repr

inductive AcquireType
  | acquireReadExclusive | acquireReadUncached | acquireWriteUncached | acquireReadWordUncached
  | acquireWriteWordUncached | acquireAtomicUncached
  deriving DecidableEq, Repr

inductive ProbeType
  | probeInvalidate | probeCopy
  deriving DecidableEq, Repr

inductive ReleaseType
  | releaseVoluntaryInvalidateData | releaseInvalidateData | releaseCopyData
  | releaseInvalidateAck | releaseCopyAck
  deriving DecidableEq, Repr

inductive GrantType
  | grantVoluntaryAck | grantReadExclusive | grantReadUncached | grantWriteUncached
  | grantReadWordUncached | grantWriteWordUncached | grantAtomicUncached
  deriving DecidableEq, Repr

open ClientState AcquireType ProbeType ReleaseType GrantType

def needsTransactionOnCacheControl (_cmd : MemCmd) (state : ClientState) : Bool :=
  state == tileValid

def getReleaseTypeOnProbe (p : ProbeType) (state : ClientState) : ReleaseType :=
  let withData := match p with
    | probeInvalidate => releaseInvalidateData
    | probeCopy => releaseCopyData
  let withoutData := match p with
    | probeInvalidate => releaseInvalidateAck
    | probeCopy => releaseCopyAck
  if needsTransactionOnCacheControl .inv state then withData else withoutData

end MI

open MI ClientState AcquireType ProbeType ReleaseType GrantType in
/-- `MICoherence`: a line is there or not. -/
def MICoherence : CoherencePolicy where
  ClientState := ClientState
  AcquireType := AcquireType
  ProbeType := ProbeType
  ReleaseType := ReleaseType
  GrantType := GrantType
  isHit _ state := state != tileInvalid
  isValid state := state != tileInvalid
  needsTransactionOnCacheControl := MI.needsTransactionOnCacheControl
  newStateOnHit _ state := state
  newStateOnCacheControl
    | .inv => tileInvalid
    | .cln => tileValid
    | _ => tileInvalid
  newStateOnGrant g _ := match g with
    | grantReadExclusive => tileValid
    | _ => tileInvalid
  newStateOnProbe p state := match p with
    | probeInvalidate => tileInvalid
    | probeCopy => state
  getAcquireTypeOnPrimaryMiss _ _ := acquireReadExclusive
  getAcquireTypeOnSecondaryMiss _ _ _ := acquireReadExclusive
  getProbeType
    | acquireReadExclusive => probeInvalidate
    | acquireReadUncached => probeCopy
    | acquireWriteUncached => probeInvalidate
    | acquireReadWordUncached => probeCopy
    | acquireWriteWordUncached => probeInvalidate
    | acquireAtomicUncached => probeInvalidate
  getReleaseTypeOnCacheControl _ := releaseVoluntaryInvalidateData
  getReleaseTypeOnProbe := MI.getReleaseTypeOnProbe
  getGrantType a _ := match a with
    | acquireReadExclusive => grantReadExclusive
    | acquireReadUncached => grantReadUncached
    | acquireWriteUncached => grantWriteUncached
    | acquireReadWordUncached => grantReadWordUncached
    | acquireWriteWordUncached => grantWriteWordUncached
    | acquireAtomicUncached => grantAtomicUncached
  getGrantTypeRel
    | releaseVoluntaryInvalidateData => grantVoluntaryAck
    | _ => grantReadUncached
  acquireHasData a :=
    a ∈ [acquireWriteUncached, acquireWriteWordUncached, acquireAtomicUncached]
  releaseHasData r :=
    r ∈ [releaseVoluntaryInvalidateData, releaseInvalidateData, releaseCopyData]
  messageIsUncached a := a ∈ [acquireReadUncached, acquireWriteUncached, acquireReadWordUncached,
    acquireWriteWordUncached, acquireAtomicUncached]
  needsOuterRead a := a != acquireWriteUncached
  requiresAckForGrant g := g != grantVoluntaryAck
  probeInvalidate := probeInvalidate

/-! ### MEI -/

namespace MEI

inductive ClientState
  | tileInvalid | tileExclusiveClean | tileExclusiveDirty
  deriving DecidableEq, Repr

inductive AcquireType
  | acquireReadExclusiveClean | acquireReadExclusiveDirty | acquireReadUncached
  | acquireWriteUncached | acquireReadWordUncached | acquireWriteWordUncached
  | acquireAtomicUncached
  deriving DecidableEq, Repr

inductive GrantType
  | grantVoluntaryAck | grantReadExclusive | grantReadUncached | grantWriteUncached
  | grantReadExclusiveAck | grantReadWordUncached | grantWriteWordUncached | grantAtomicUncached
  deriving DecidableEq, Repr

open ClientState AcquireType GrantType

def messageIsUncached (a : AcquireType) : Bool :=
  a ∈ [acquireReadUncached, acquireWriteUncached, acquireReadWordUncached,
    acquireWriteWordUncached, acquireAtomicUncached]

def needsTransactionOnCacheControl (_cmd : MemCmd) (state : ClientState) : Bool :=
  state == tileExclusiveDirty

end MEI

/-- The probe types of the three policies that can downgrade. -/
inductive ProbeType
  | probeInvalidate | probeDowngrade | probeCopy
  deriving DecidableEq, Repr

/-- The release types of the three policies that can downgrade. -/
inductive ReleaseType
  | releaseVoluntaryInvalidateData | releaseInvalidateData | releaseDowngradeData | releaseCopyData
  | releaseInvalidateAck | releaseDowngradeAck | releaseCopyAck
  deriving DecidableEq, Repr

open ProbeType ReleaseType in
/-- `getReleaseTypeOnProbe` of the three policies that can downgrade; they differ in which states
have data to write back. -/
def getReleaseTypeOnProbe (needsWriteback : Bool) (p : ProbeType) : ReleaseType :=
  let withData := match p with
    | probeInvalidate => releaseInvalidateData
    | probeDowngrade => releaseDowngradeData
    | probeCopy => releaseCopyData
  let withoutData := match p with
    | probeInvalidate => releaseInvalidateAck
    | probeDowngrade => releaseDowngradeAck
    | probeCopy => releaseCopyAck
  if needsWriteback then withData else withoutData

open MEI MEI.ClientState MEI.AcquireType MEI.GrantType ProbeType ReleaseType in
/-- `MEICoherence`: every copy is the only one. -/
def MEICoherence : CoherencePolicy where
  ClientState := MEI.ClientState
  AcquireType := MEI.AcquireType
  ProbeType := ProbeType
  ReleaseType := ReleaseType
  GrantType := MEI.GrantType
  isHit _ state := state != tileInvalid
  isValid state := state != tileInvalid
  needsTransactionOnCacheControl := MEI.needsTransactionOnCacheControl
  newStateOnHit cmd state := if cmd.isWrite then tileExclusiveDirty else state
  newStateOnCacheControl
    | .inv => tileInvalid
    | .cln => tileExclusiveClean
    | _ => tileInvalid
  newStateOnGrant g outstanding := match g with
    | grantReadExclusive =>
      if outstanding = acquireReadExclusiveDirty then tileExclusiveDirty else tileExclusiveClean
    | grantReadExclusiveAck => tileExclusiveDirty
    | _ => tileInvalid
  newStateOnProbe p state := match p with
    | probeInvalidate => tileInvalid
    | probeDowngrade => tileExclusiveClean
    | probeCopy => state
  getAcquireTypeOnPrimaryMiss cmd _ :=
    if cmd.isWriteIntent then acquireReadExclusiveDirty else acquireReadExclusiveClean
  getAcquireTypeOnSecondaryMiss cmd _ outstanding :=
    if cmd.isWriteIntent then acquireReadExclusiveDirty else outstanding
  getProbeType
    | acquireReadExclusiveClean => probeInvalidate
    | acquireReadExclusiveDirty => probeInvalidate
    | acquireReadUncached => probeCopy
    | acquireWriteUncached => probeInvalidate
    | acquireReadWordUncached => probeCopy
    | acquireWriteWordUncached => probeInvalidate
    | acquireAtomicUncached => probeInvalidate
  getReleaseTypeOnCacheControl _ := releaseVoluntaryInvalidateData
  getReleaseTypeOnProbe p state :=
    getReleaseTypeOnProbe (MEI.needsTransactionOnCacheControl .inv state) p
  getGrantType a _ := match a with
    | acquireReadExclusiveClean => grantReadExclusive
    | acquireReadExclusiveDirty => grantReadExclusive
    | acquireReadUncached => grantReadUncached
    | acquireWriteUncached => grantWriteUncached
    | acquireReadWordUncached => grantReadWordUncached
    | acquireWriteWordUncached => grantWriteWordUncached
    | acquireAtomicUncached => grantAtomicUncached
  getGrantTypeRel
    | releaseVoluntaryInvalidateData => grantVoluntaryAck
    | _ => grantReadUncached
  acquireHasData a :=
    a ∈ [acquireWriteUncached, acquireWriteWordUncached, acquireAtomicUncached]
  releaseHasData r := r ∈ [releaseVoluntaryInvalidateData, releaseInvalidateData,
    releaseDowngradeData, releaseCopyData]
  messageIsUncached := MEI.messageIsUncached
  needsOuterRead a := a != acquireWriteUncached
  requiresAckForGrant g := g != grantVoluntaryAck
  probeInvalidate := probeInvalidate

/-! ### MSI and MESI

The two policies with a shared state have the same messages; they differ in the clean exclusive
state, and in what word writes and atomics probe for. -/

namespace Sharing

inductive AcquireType
  | acquireReadShared | acquireReadExclusive | acquireReadUncached | acquireWriteUncached
  | acquireReadWordUncached | acquireWriteWordUncached | acquireAtomicUncached
  deriving DecidableEq, Repr

inductive GrantType
  | grantVoluntaryAck | grantReadShared | grantReadExclusive | grantReadUncached
  | grantWriteUncached | grantReadExclusiveAck | grantReadWordUncached | grantWriteWordUncached
  | grantAtomicUncached
  deriving DecidableEq, Repr

open AcquireType GrantType ProbeType ReleaseType

def messageIsUncached (a : AcquireType) : Bool :=
  a ∈ [acquireReadUncached, acquireWriteUncached, acquireReadWordUncached,
    acquireWriteWordUncached, acquireAtomicUncached]

def getAcquireTypeOnPrimaryMiss (cmd : MemCmd) : AcquireType :=
  if cmd.isWriteIntent then acquireReadExclusive else acquireReadShared

def getAcquireTypeOnSecondaryMiss (cmd : MemCmd) (outstanding : AcquireType) : AcquireType :=
  if cmd.isWriteIntent then acquireReadExclusive else outstanding

/-- `count` is the number of sharers the agent believes in. -/
def getGrantType (a : AcquireType) (count : Nat) : GrantType :=
  match a with
  | acquireReadShared => if count > 0 then grantReadShared else grantReadExclusive
  | acquireReadExclusive => grantReadExclusive
  | acquireReadUncached => grantReadUncached
  | acquireWriteUncached => grantWriteUncached
  | acquireReadWordUncached => grantReadWordUncached
  | acquireWriteWordUncached => grantWriteWordUncached
  | acquireAtomicUncached => grantAtomicUncached

def getGrantTypeRel : ReleaseType → GrantType
  | releaseVoluntaryInvalidateData => grantVoluntaryAck
  | _ => grantReadUncached

def acquireHasData (a : AcquireType) : Bool :=
  a ∈ [acquireWriteUncached, acquireWriteWordUncached, acquireAtomicUncached]

def releaseHasData (r : ReleaseType) : Bool :=
  r ∈ [releaseVoluntaryInvalidateData, releaseInvalidateData, releaseDowngradeData,
    releaseCopyData]

end Sharing

namespace MSI

inductive ClientState
  | tileInvalid | tileShared | tileExclusiveDirty
  deriving DecidableEq, Repr

open ClientState Sharing.AcquireType ProbeType

def needsTransactionOnCacheControl (_cmd : MemCmd) (state : ClientState) : Bool :=
  state == tileExclusiveDirty

/-- The table ends after `acquireWriteUncached`: the other three types take the default. -/
def getProbeType : Sharing.AcquireType → ProbeType
  | acquireReadShared => probeDowngrade
  | acquireReadExclusive => probeInvalidate
  | acquireReadUncached => probeCopy
  | acquireWriteUncached => probeInvalidate
  | _ => probeCopy

end MSI

open MSI.ClientState Sharing.AcquireType Sharing.GrantType ProbeType ReleaseType in
/-- `MSICoherence`: readers share, and the one writer is always dirty. -/
def MSICoherence : CoherencePolicy where
  ClientState := MSI.ClientState
  AcquireType := Sharing.AcquireType
  ProbeType := ProbeType
  ReleaseType := ReleaseType
  GrantType := Sharing.GrantType
  isHit cmd state :=
    if cmd.isWriteIntent then state == tileExclusiveDirty
    else state == tileShared || state == tileExclusiveDirty
  isValid state := state != tileInvalid
  needsTransactionOnCacheControl := MSI.needsTransactionOnCacheControl
  newStateOnHit cmd state := if cmd.isWrite then tileExclusiveDirty else state
  newStateOnCacheControl
    | .inv => tileInvalid
    | .cln => tileShared
    | _ => tileInvalid
  newStateOnGrant g _ := match g with
    | grantReadShared => tileShared
    | grantReadExclusive => tileExclusiveDirty
    | grantReadExclusiveAck => tileExclusiveDirty
    | _ => tileInvalid
  newStateOnProbe p state := match p with
    | probeInvalidate => tileInvalid
    | probeDowngrade => tileShared
    | probeCopy => state
  getAcquireTypeOnPrimaryMiss cmd _ := Sharing.getAcquireTypeOnPrimaryMiss cmd
  getAcquireTypeOnSecondaryMiss cmd _ outstanding :=
    Sharing.getAcquireTypeOnSecondaryMiss cmd outstanding
  getProbeType := MSI.getProbeType
  getReleaseTypeOnCacheControl _ := releaseVoluntaryInvalidateData
  getReleaseTypeOnProbe p state :=
    getReleaseTypeOnProbe (MSI.needsTransactionOnCacheControl .inv state) p
  getGrantType := Sharing.getGrantType
  getGrantTypeRel := Sharing.getGrantTypeRel
  acquireHasData := Sharing.acquireHasData
  releaseHasData := Sharing.releaseHasData
  messageIsUncached := Sharing.messageIsUncached
  needsOuterRead a := a != acquireWriteUncached
  requiresAckForGrant g := g != grantVoluntaryAck
  probeInvalidate := probeInvalidate

namespace MESI

inductive ClientState
  | tileInvalid | tileShared | tileExclusiveClean | tileExclusiveDirty
  deriving DecidableEq, Repr

open ClientState Sharing.AcquireType ProbeType

def needsTransactionOnCacheControl (_cmd : MemCmd) (state : ClientState) : Bool :=
  state == tileExclusiveDirty

def getProbeType : Sharing.AcquireType → ProbeType
  | acquireReadShared => probeDowngrade
  | acquireReadExclusive => probeInvalidate
  | acquireReadUncached => probeCopy
  | acquireWriteUncached => probeInvalidate
  | acquireReadWordUncached => probeCopy
  | acquireWriteWordUncached => probeInvalidate
  | acquireAtomicUncached => probeInvalidate

end MESI

open MESI.ClientState Sharing.AcquireType Sharing.GrantType ProbeType ReleaseType in
/-- `MESICoherence`: a sole reader may become the writer without asking. -/
def MESICoherence : CoherencePolicy where
  ClientState := MESI.ClientState
  AcquireType := Sharing.AcquireType
  ProbeType := ProbeType
  ReleaseType := ReleaseType
  GrantType := Sharing.GrantType
  isHit cmd state :=
    if cmd.isWriteIntent then state == tileExclusiveClean || state == tileExclusiveDirty
    else state == tileShared || state == tileExclusiveClean || state == tileExclusiveDirty
  isValid state := state != tileInvalid
  needsTransactionOnCacheControl := MESI.needsTransactionOnCacheControl
  newStateOnHit cmd state := if cmd.isWrite then tileExclusiveDirty else state
  newStateOnCacheControl
    | .inv => tileInvalid
    | .cln => tileShared
    | _ => tileInvalid
  newStateOnGrant g outstanding := match g with
    | grantReadShared => tileShared
    | grantReadExclusive =>
      if outstanding = acquireReadExclusive then tileExclusiveDirty else tileExclusiveClean
    | grantReadExclusiveAck => tileExclusiveDirty
    | _ => tileInvalid
  newStateOnProbe p state := match p with
    | probeInvalidate => tileInvalid
    | probeDowngrade => tileShared
    | probeCopy => state
  getAcquireTypeOnPrimaryMiss cmd _ := Sharing.getAcquireTypeOnPrimaryMiss cmd
  getAcquireTypeOnSecondaryMiss cmd _ outstanding :=
    Sharing.getAcquireTypeOnSecondaryMiss cmd outstanding
  getProbeType := MESI.getProbeType
  getReleaseTypeOnCacheControl _ := releaseVoluntaryInvalidateData
  getReleaseTypeOnProbe p state :=
    getReleaseTypeOnProbe (MESI.needsTransactionOnCacheControl .inv state) p
  getGrantType := Sharing.getGrantType
  getGrantTypeRel := Sharing.getGrantTypeRel
  acquireHasData := Sharing.acquireHasData
  releaseHasData := Sharing.releaseHasData
  messageIsUncached := Sharing.messageIsUncached
  needsOuterRead a := a != acquireWriteUncached
  requiresAckForGrant g := g != grantVoluntaryAck
  probeInvalidate := probeInvalidate

end RiscvSoc
