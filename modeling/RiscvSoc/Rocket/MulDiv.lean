import RiscvSoc.Lib.Bits
import Mathlib.Data.Nat.Bitwise

/-!
# The iterative multiplier and divider

`MulDiv` from `rocket/src/main/scala/multiplier.scala`: one register file, one clock edge, and
the decoded command table. Register widths appear as slices and wrap-arounds exactly where the
source truncates, so every intermediate value is the bit pattern the hardware holds.

## What is deliberately left open

The `FN_MUL` row of the command table leaves `lhsSigned` and `rhsSigned` as don't-cares, and the
decoder generator is free to resolve them. They are two fields of `MulDivConfig`, so a result
about the multiplier holds for either resolution.

`mulUnroll` is carried together with the proof that it divides the operand width. At
`mulUnroll = w` the source slice `mplier(mulw-1,mulUnroll)` is inverted; `Bits.bits` reads it as
the zero-width word.
-/

namespace RiscvSoc

open Bits

/-- The operand width, `io.req.bits.in1.getWidth`. -/
def w : ℕ := 64

theorem one_lt_w : 1 < w := by decide

/-- The two elaboration parameters of `MulDiv`, and the resolution of the two don't-cares of its
command table. -/
structure MulDivConfig where
  mulUnroll : ℕ
  earlyOut : Bool
  mulLhsSigned : Bool
  mulRhsSigned : Bool
  /-- The unroll factor divides the operand width. -/
  mulUnroll_dvd : mulUnroll ∣ w

inductive MulDivFn
  | div | rem | divu | remu | mul | mulh | mulhu | mulhsu
  deriving DecidableEq, Repr

/-- The operand width selector, `DW_32` or `DW_64`. -/
inductive Dw
  | dw32 | dw64
  deriving DecidableEq, Repr

structure MultiplierReq where
  fn : MulDivFn
  dw : Dw
  in1 : ℕ
  in2 : ℕ
  tag : ℕ
  deriving DecidableEq, Repr

inductive MulDivState
  | sReady | sNegInputs | sBusy | sMoveRem | sNegOutput | sDone
  deriving DecidableEq, Repr

/-- The registers of the unit. `divisor` is `w + 1` bits wide, `remainder` `2 * mulw + 2`. -/
structure MulDiv where
  state : MulDivState
  req : MultiplierReq
  count : ℕ
  negOut : Bool
  isMul : Bool
  isHi : Bool
  divisor : ℕ
  remainder : ℕ
  deriving DecidableEq, Repr

/-- The inputs of one cycle. -/
structure MulDivIn where
  reqValid : Bool
  req : MultiplierReq
  kill : Bool
  respReady : Bool

namespace MulDivConfig

variable (conf : MulDivConfig)

/-- The multiplier register width: `w` rounded up to a multiple of `mulUnroll`. -/
def mulw : ℕ := (w + conf.mulUnroll - 1) / conf.mulUnroll * conf.mulUnroll

/-- One row of the command table: `(cmdMul, cmdHi, lhsSigned, rhsSigned)`. -/
def decode : MulDivFn → Bool × Bool × Bool × Bool
  | .div => (false, false, true, true)
  | .rem => (false, true, true, true)
  | .divu => (false, false, false, false)
  | .remu => (false, true, false, false)
  | .mul => (true, false, conf.mulLhsSigned, conf.mulRhsSigned)
  | .mulh => (true, true, true, true)
  | .mulhu => (true, true, false, false)
  | .mulhsu => (true, true, true, false)

end MulDivConfig

namespace MulDiv

/-- `sext`: an operand widened to `w` bits under `dw`, and its sign. -/
def sext (dw : Dw) (x : ℕ) (isSigned : Bool) : ℕ × Bool :=
  let sign := isSigned && (match dw with
    | .dw64 => x.testBit (w - 1)
    | .dw32 => x.testBit (w / 2 - 1))
  let hi := match dw with
    | .dw64 => bits x (w - 1) (w / 2)
    | .dw32 => if sign then 2 ^ (w / 2) - 1 else 0
  (cat hi (w / 2) (bits x (w / 2 - 1) 0), sign)

variable (conf : MulDivConfig)

/-- `remainder(2*w,w) - divisor(w,0)`, on `w + 1` bits. -/
def subtractor (s : MulDiv) : ℕ :=
  wrap (w + 1) ((bits s.remainder (2 * w) w : ℤ) - bits s.divisor w 0)

def less (s : MulDiv) : Bool := s.subtractor.testBit w

/-- `-remainder(w-1,0)`. -/
def negatedRemainder (s : MulDiv) : ℕ := wrap w (-(bits s.remainder (w - 1) 0 : ℤ))

def negInputs (s : MulDiv) : MulDiv :=
  { s with
    remainder := if s.remainder.testBit (w - 1) || s.isMul then s.negatedRemainder else s.remainder
    divisor := if s.divisor.testBit (w - 1) || s.isMul then s.subtractor else s.divisor
    state := .sBusy }

def negOutput (s : MulDiv) : MulDiv :=
  { s with remainder := s.negatedRemainder, state := .sDone }

def moveRem (s : MulDiv) : MulDiv :=
  { s with
    remainder := bits s.remainder (2 * w) (w + 1)
    state := if s.negOut then .sNegOutput else .sDone }

/-! ### The multiplier step -/

/-- The partial product and multiplier share `remainder`, with one bit between the halves. -/
def mulReg (s : MulDiv) : ℕ :=
  cat (bits s.remainder (2 * conf.mulw + 1) (w + 1)) w (bits s.remainder (w - 1) 0)

def mplier (s : MulDiv) : ℕ := bits (s.mulReg conf) (conf.mulw - 1) 0

/-- `mulReg(2*mulw,mulw).toSInt`. -/
def accum (s : MulDiv) : ℤ :=
  signed (conf.mulw + 1) (bits (s.mulReg conf) (2 * conf.mulw) conf.mulw)

/-- `divisor.toSInt`. -/
def mpcand (s : MulDiv) : ℤ := signed (w + 1) s.divisor

/-- `mplier(mulUnroll-1,0) * mpcand + accum`; the result is `w + 1 + mulUnroll` bits wide. -/
def prod (s : MulDiv) : ℤ :=
  bits (s.mplier conf) (conf.mulUnroll - 1) 0 * s.mpcand + s.accum conf

def nextMulReg (s : MulDiv) : ℕ :=
  cat (wrap (w + 1 + conf.mulUnroll) (s.prod conf)) (conf.mulw - conf.mulUnroll)
    (bits (s.mplier conf) (conf.mulw - 1) conf.mulUnroll)

/-- `(SInt(-1 << mulw) >> (count * mulUnroll)(log2Up(mulw)-1,0))(mulw-1,0)`. -/
def eOutMask (s : MulDiv) : ℕ :=
  wrap conf.mulw (-2 ^ conf.mulw / 2 ^ (bits (s.count * conf.mulUnroll) (log2Up conf.mulw - 1) 0))

/-- `x & ~mask` on `n` bits. -/
def andNot (n x mask : ℕ) : ℕ := x &&& (2 ^ n - 1 - mask)

def mulEOut (s : MulDiv) : Bool :=
  conf.earlyOut && s.count != conf.mulw / conf.mulUnroll - 1 && s.count != 0 && !s.isHi &&
    andNot conf.mulw (s.mplier conf) (s.eOutMask conf) == 0

def eOutRes (s : MulDiv) : ℕ :=
  s.mulReg conf / 2 ^ (bits (wrap (log2Up (conf.mulw + 1))
    ((conf.mulw : ℤ) - s.count * conf.mulUnroll)) (log2Up conf.mulw - 1) 0)

def nextMulReg1 (s : MulDiv) : ℕ :=
  cat (bits (s.nextMulReg conf) (2 * conf.mulw) conf.mulw) conf.mulw
    (bits (if s.mulEOut conf then s.eOutRes conf else s.nextMulReg conf) (conf.mulw - 1) 0)

/-- `state === s_busy && isMul`. -/
def mulStep (s : MulDiv) : MulDiv :=
  { s with
    remainder := cat (cat (s.nextMulReg1 conf / 2 ^ w) 1 0) w (bits (s.nextMulReg1 conf) (w - 1) 0)
    count := (s.count + 1) % 2 ^ log2Up (w + 1)
    state := if s.mulEOut conf || s.count == conf.mulw / conf.mulUnroll - 1 then
        (if s.isHi then .sMoveRem else .sDone)
      else s.state }

/-! ### The divider step -/

def divisorMSB (s : MulDiv) : ℕ := msb (bits s.divisor (w - 1) 0)

def dividendMSB (s : MulDiv) : ℕ := msb (bits s.remainder (w - 1) 0)

/-- `UInt(w-1) + divisorMSB - dividendMSB`, on `log2Up(w)` bits. -/
def eOutPos (s : MulDiv) : ℕ :=
  wrap (log2Up w) ((w - 1 : ℕ) + s.divisorMSB - s.dividendMSB)

def eOutZero (s : MulDiv) : Bool := s.dividendMSB < s.divisorMSB

def divEOut (s : MulDiv) : Bool :=
  s.count == 0 && s.less && (decide (0 < s.eOutPos) || s.eOutZero)

def shift (s : MulDiv) : ℕ := if s.eOutZero then w - 1 else bits s.eOutPos (log2Up w - 1) 0

/-- `state === s_busy && !isMul`. -/
def divStep (s : MulDiv) : MulDiv :=
  let n := { s with
    state := if s.count == w then
        (if s.isHi then .sMoveRem else if s.negOut then .sNegOutput else .sDone)
      else s.state
    count := (s.count + 1) % 2 ^ log2Up (w + 1)
    remainder := cat (cat (if s.less then bits s.remainder (2 * w - 1) w
        else bits s.subtractor (w - 1) 0) w (bits s.remainder (w - 1) 0)) 1 (!s.less).toNat }
  let n := if conf.earlyOut && s.divEOut then
      { n with remainder := bits s.remainder (w - 1) 0 * 2 ^ s.shift, count := s.shift }
    else n
  -- a first step that does not borrow means a zero divisor
  if s.count == 0 && !s.less then { n with negOut := false } else n

/-! ### One clock edge -/

def reqFire (s : MulDiv) (io : MulDivIn) : Bool := s.state == .sReady && io.reqValid

def respValid (s : MulDiv) : Bool := s.state == .sDone

def respFire (s : MulDiv) (io : MulDivIn) : Bool := s.respValid && io.respReady

/-- The registers loaded when a request is accepted. -/
def accept (s : MulDiv) (r : MultiplierReq) : MulDiv :=
  let (cmdMul, cmdHi, lhsSigned, rhsSigned) := conf.decode r.fn
  let (lhsIn, lhsSign) := sext r.dw r.in1 lhsSigned
  let (rhsIn, rhsSign) := sext r.dw r.in2 rhsSigned
  { s with
    state := if lhsSign || rhsSign && !cmdMul then .sNegInputs else .sBusy
    isMul := cmdMul
    isHi := cmdHi
    count := 0
    negOut := !cmdMul && (if cmdHi then lhsSign else lhsSign != rhsSign)
    divisor := cat rhsSign.toNat w rhsIn
    remainder := lhsIn
    req := r }

/-- The datapath part of the edge, by state. -/
def advance (s : MulDiv) : MulDiv :=
  match s.state with
  | .sNegInputs => s.negInputs
  | .sNegOutput => s.negOutput
  | .sMoveRem => s.moveRem
  | .sBusy => if s.isMul then s.mulStep conf else s.divStep conf
  | .sReady | .sDone => s

/-- One clock edge. The later assignments of the source win over the earlier ones. -/
def next (s : MulDiv) (io : MulDivIn) : MulDiv :=
  let n := s.advance conf
  let n := if s.respFire io || io.kill then { n with state := .sReady } else n
  if s.reqFire io then accept conf n io.req else n

/-- `io.resp.bits.data`. -/
def respData (s : MulDiv) : ℕ :=
  match s.req.dw with
  | .dw32 => cat (if s.remainder.testBit (w / 2 - 1) then 2 ^ (w / 2) - 1 else 0) (w / 2)
      (bits s.remainder (w / 2 - 1) 0)
  | .dw64 => bits s.remainder (w - 1) 0

/-! ### Runs -/

/-- The registers after `n` edges under the input stream `io`. -/
def run (s : MulDiv) (io : ℕ → MulDivIn) : ℕ → MulDiv
  | 0 => s
  | n + 1 => next conf (run s io n) (io n)

/-- Under `io`, the unit starting in `s` accepts its request in cycle `0` and first answers in
cycle `n`, with `data`. -/
structure Responds (s : MulDiv) (io : ℕ → MulDivIn) (n : ℕ) (data : ℕ) : Prop where
  valid : (s.run conf io n).respValid
  first : ∀ m, 0 < m → m < n → ¬(s.run conf io m).respValid
  data_eq : (s.run conf io n).respData = data

end MulDiv

end RiscvSoc
