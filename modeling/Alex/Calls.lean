/-
# `Alex.Calls` — the calls of the RPLIDAR driver, in any order

A program connects, asks, starts and stops scans and turns the motor on and off, in any
order; the thread that reads the scan may fail in between.  A call that asks or starts
something sends a command and waits for the header of the answer, and for that the bytes
that come must not be the thread's: `_disableDataGrabbing` ends it first.

The port is `_rxtx`.  `issued` are the commands that `_sendCommand` has passed on to it,
`sent` what of them has been written, and `incoming` the bytes the scanner sends, now and
later, that have not been taken.  A command is passed on in pieces, and of a piece nothing
more is written once `write()` fails: `_sendCommand` does not look at that, and goes on with
the next piece.  Of a port that is not open nothing can be read, and what is passed on to it
is lost.
-/
import Alex.Lib.Mealy
import Alex.Transactions

namespace Alex

namespace Rplidar

open Cells Bytes Scanner
open scoped List

/-! ## The driver -/

/-- The loop that `_cachethread` is in. -/
inductive CacheThread where
  | cacheScanData | cacheCapsuledScanData
  deriving DecidableEq, Repr

/-- `RPlidarDriverSerialImpl`, and the port.  `writes` are what `write()` will do: how many bytes
of each of the next pieces are written before it fails.  Where the list ends it fails no more. -/
structure DriverSerialImpl where
  isConnected : Bool
  isScanning : Bool
  isSupportingMotorCtrl : Bool
  cachedSampledurationStd : UInt16
  cachedSampledurationExpress : UInt16
  cachethread : Option CacheThread
  opened : Bool
  dtr : Bool
  writes : List Nat
  issued : List Command
  sent : List UInt8
  incoming : List UInt8
  deriving DecidableEq, Repr

/-- `rplidar_response_sample_rate_t` -/
structure SampleRate where
  stdSampleDurationUs : UInt16
  expressSampleDurationUs : UInt16
  deriving DecidableEq, Repr

/-- The memory at a sample rate. -/
def SampleRate.ofMemory (f : Nat → UInt8) : SampleRate := ⟨half f 0, half f 2⟩

/-- `firmware_version` of a `rplidar_response_device_info_t` -/
def firmwareVersion (info : List UInt8) : UInt16 := half (fun i => info.getD i 0) 1

/-- The same, of a `devinfo` in which `firmware` lay before the answer. -/
def firmwareOf (firmware : UInt16) : Except UResult (List UInt8) → UInt16
  | .ok devinfo => firmwareVersion devinfo
  | .error _ => firmware

/-- `(0x1<<8) | 17`, the first firmware that knows express scans. -/
def expressFirmware : UInt16 := (0x1 : UInt16) <<< 8 ||| 17

/-- `RPLIDAR_CMD_STOP` -/
def Command.stop : Command := ⟨0x25, []⟩

/-- What `_sendCommand(cmd, payload, payloadsize)` passes to `senddata`, call after call. -/
def Command.pieces (c : Command) : List (List UInt8) :=
  let cmd := if c.payload ≠ [] then c.cmd ||| 0x80 else c.cmd
  let size : UInt8 := .ofNat c.payload.length
  [0xA5, cmd] ::
    if cmd &&& 0x80 ≠ 0 then
      let checksum := 0 ^^^ 0xA5 ^^^ cmd ^^^ size
      [[size], c.payload.take size.toNat, [c.payload.foldl (· ^^^ ·) checksum]]
    else []

/-- The waits of `checkExpressScanSupported`, and what lies where an answer that does not
come would be: `devinfo.firmware_version` and `sample_rate`. -/
structure Support where
  support : Turn
  info : Turn
  rate : Turn
  firmware : UInt16
  sampleRate : SampleRate

namespace DriverSerialImpl

/-- `RPlidarDriverSerialImpl()`, with `LEGACY_SAMPLE_DURATION`. -/
def initial (dtr : Bool) (writes : List Nat) (incoming : List UInt8) : DriverSerialImpl where
  isConnected := false
  isScanning := false
  isSupportingMotorCtrl := false
  cachedSampledurationStd := 476
  cachedSampledurationExpress := 476
  cachethread := none
  opened := false
  dtr := dtr
  writes := writes
  issued := []
  sent := []
  incoming := incoming

/-! ### The port -/

def senddata (d : DriverSerialImpl) (data : List UInt8) : DriverSerialImpl :=
  if d.opened ∧ data ≠ [] then
    match d.writes with
    | [] => { d with sent := d.sent ++ data }
    | written :: writes => { d with writes, sent := d.sent ++ data.take written }
  else d

def setDTR (d : DriverSerialImpl) : DriverSerialImpl :=
  if d.opened then { d with dtr := true } else d

def clearDTR (d : DriverSerialImpl) : DriverSerialImpl :=
  if d.opened then { d with dtr := false } else d

/-- What comes of a wait. -/
def waitfordata (d : DriverSerialImpl) (wait : Wait) : Wait :=
  if d.opened then wait else .error .devErr

def turn (d : DriverSerialImpl) (t : Turn) : Turn :=
  ⟨t.header.map d.waitfordata, d.waitfordata t.data⟩

/-! ### Requests -/

/-- A command is passed on to the port. -/
def issue (d : DriverSerialImpl) (c : Command) : DriverSerialImpl :=
  if d.opened then { d with issued := d.issued ++ [c] } else d

/-- `_sendCommand`, which does not look at what `senddata` returns. -/
def sendCommand (d : DriverSerialImpl) (c : Command) : DriverSerialImpl × UResult :=
  if !d.isConnected then (d, .operationFail)
  else (c.pieces.foldl senddata (d.issue c), .ok)

/-- `_disableDataGrabbing`: the thread ends when it looks at `_isScanning` next. -/
def disableDataGrabbing (d : DriverSerialImpl) : DriverSerialImpl :=
  { d with isScanning := false, cachethread := none }

def ask (d : DriverSerialImpl) (r : Request) (turn : Turn) :
    DriverSerialImpl × Except UResult (List UInt8) :=
  match d.sendCommand r.command with
  | (d, ans) =>
      if ans.isFail then (d, .error ans)
      else
        let (answer, rest) := transaction r (d.turn turn) d.incoming
        ({ d with incoming := rest }, answer)

/-- `getHealth`, `getDeviceInfo`, `checkMotorCtrlSupport` -/
def request (d : DriverSerialImpl) (r : Request) (turn : Turn) :
    DriverSerialImpl × Except UResult (List UInt8) :=
  if !d.isConnected then (d, .error .operationFail) else d.disableDataGrabbing.ask r turn

def getHealth (d : DriverSerialImpl) (turn : Turn) :
    DriverSerialImpl × Except UResult (List UInt8) :=
  d.request Rplidar.getHealth turn

def getDeviceInfo (d : DriverSerialImpl) (turn : Turn) :
    DriverSerialImpl × Except UResult (List UInt8) :=
  d.request Rplidar.getDeviceInfo turn

/-- `checkMotorCtrlSupport`: `support_flag & RPLIDAR_RESP_ACC_BOARD_FLAG_MOTOR_CTRL_SUPPORT_MASK` -/
def checkMotorCtrlSupport (d : DriverSerialImpl) (turn : Turn) :
    DriverSerialImpl × UResult × Bool :=
  match d.request Rplidar.checkMotorCtrlSupport turn with
  | (d, .error ans) => (d, ans, false)
  | (d, .ok flag) => (d, .ok, word (fun i => flag.getD i 0) 0 &&& 0x1 ≠ 0)

/-- `getSampleDuration_uS(rateInfo)`; `firmware` is what lies in `devinfo` if it is not sent. -/
def getSampleDuration (d : DriverSerialImpl) (info rate : Turn) (firmware : UInt16)
    (rateInfo : SampleRate) : DriverSerialImpl × UResult × SampleRate :=
  if !d.isConnected then (d, .operationFail, rateInfo)
  else
    let (d, answer) := d.disableDataGrabbing.getDeviceInfo info
    let rateInfo : SampleRate := ⟨d.cachedSampledurationStd, d.cachedSampledurationExpress⟩
    if firmwareOf firmware answer < expressFirmware then (d, .ok, rateInfo)
    else
      match d.ask Rplidar.getSampleDuration rate with
      | (d, .error ans) => (d, ans, rateInfo)
      | (d, .ok answer) => (d, .ok, .ofMemory fun i => answer.getD i 0)

/-! ### Scans -/

def stop (d : DriverSerialImpl) : DriverSerialImpl × UResult :=
  d.disableDataGrabbing.sendCommand .stop

/-- `startScanNormal`, `startScanExpress`: the command, and the type and the size of what the
scanner then sends.  `created` tells whether there is a thread in the end. -/
def startWith (d : DriverSerialImpl) (start : Request) (thread : CacheThread)
    (waits : List Wait) (created : Bool) : DriverSerialImpl × UResult :=
  if !d.isConnected then (d, .operationFail)
  else if d.isScanning then (d, .alreadyDone)
  else
    match d.stop.1.sendCommand start.command with
    | (d, ans) =>
        if ans.isFail then (d, ans)
        else
          match waitResponseHeader (waits.map d.waitfordata) d.incoming with
          | (.error ans, rest) => ({ d with incoming := rest }, ans)
          | (.ok header, rest) =>
              let d := { d with incoming := rest }
              if header.type ≠ start.ansType then (d, .invalidData)
              else if header.size < start.ansSize then (d, .invalidData)
              else
                let d := { d with isScanning := true }
                if created then ({ d with cachethread := some thread }, .ok)
                else (d, .operationFail)

/-- `startScanNormal(force)`: `RPLIDAR_CMD_FORCE_SCAN` or `RPLIDAR_CMD_SCAN`, and nodes. -/
def startScanNormal (d : DriverSerialImpl) (force : Bool) (waits : List Wait) (created : Bool) :
    DriverSerialImpl × UResult :=
  d.startWith ⟨⟨if force then 0x21 else 0x20, []⟩, 0x81, sizeofNode⟩ .cacheScanData
    waits created

/-- `startScanExpress(fixedAngle)`: `RPLIDAR_CMD_EXPRESS_SCAN`, and capsules. -/
def startScanExpress (d : DriverSerialImpl) (fixedAngle : Bool) (waits : List Wait)
    (created : Bool) : DriverSerialImpl × UResult :=
  d.startWith ⟨⟨0x82, [if fixedAngle then 1 else 0, 0, 0, 0, 0]⟩, 0x82, 84⟩
    .cacheCapsuledScanData waits created

def checkExpressScanSupported (d : DriverSerialImpl) (turns : Support) :
    DriverSerialImpl × UResult × Bool :=
  match d.getDeviceInfo turns.support with
  | (d, .error ans) => (d, ans, false)
  | (d, .ok devinfo) =>
      if firmwareVersion devinfo < expressFirmware then (d, .ok, false)
      else
        match d.getSampleDuration turns.info turns.rate turns.firmware turns.sampleRate with
        | (d, _, sampleRate) =>
            ({ d with
                cachedSampledurationExpress := sampleRate.expressSampleDurationUs
                cachedSampledurationStd := sampleRate.stdSampleDurationUs }, .ok, true)

def startScan (d : DriverSerialImpl) (force autoExpressMode : Bool) (turns : Support)
    (waits : List Wait) (created : Bool) : DriverSerialImpl × UResult :=
  if autoExpressMode then
    match d.checkExpressScanSupported turns with
    | (d, ans, supported) =>
        if ans.isFail then (d, ans)
        else if supported then d.startScanExpress false waits created
        else d.startScanNormal force waits created
  else d.startScanNormal force waits created

/-! ### The motor and the connection -/

def setMotorPWM (d : DriverSerialImpl) (pwm : UInt16) : DriverSerialImpl × UResult :=
  d.sendCommand ⟨0xF0, ofHalf pwm⟩

/-- `startMotor`: `DEFAULT_MOTOR_PWM`, or DTR cleared. -/
def startMotor (d : DriverSerialImpl) : DriverSerialImpl × UResult :=
  if d.isSupportingMotorCtrl then ((d.setMotorPWM 660).1, .ok) else (d.clearDTR, .ok)

def stopMotor (d : DriverSerialImpl) : DriverSerialImpl × UResult :=
  if d.isSupportingMotorCtrl then ((d.setMotorPWM 0).1, .ok) else (d.setDTR, .ok)

def reset (d : DriverSerialImpl) : DriverSerialImpl × UResult := d.sendCommand ⟨0x40, []⟩

/-- `connect`.  Whether the port can be opened, and how many bytes are flushed. -/
def connect (d : DriverSerialImpl) (opens : Bool) (flushed : Nat) (turn : Turn) :
    DriverSerialImpl × UResult :=
  if d.isConnected then (d, .alreadyDone)
  else if !opens then ({ d with opened := false }, .invalidData)
  else
    let d := { d with opened := true, incoming := d.incoming.drop flushed }
    let d := { d.clearDTR with isConnected := true }
    let (d, _, support) := d.checkMotorCtrlSupport turn
    (({ d with isSupportingMotorCtrl := support }).stopMotor.1, .ok)

def disconnect (d : DriverSerialImpl) : DriverSerialImpl :=
  if !d.isConnected then d else { d.stop.1 with opened := false }

end DriverSerialImpl

/-- The calls, and what the thread does: `cachethreadReads` takes bytes, `cachethreadFails` is
an error of the port, after which it ends. -/
inductive Call where
  | connect (opens : Bool) (flushed : Nat) (turn : Turn)
  | disconnect
  | reset
  | getHealth (turn : Turn)
  | getDeviceInfo (turn : Turn)
  | checkMotorCtrlSupport (turn : Turn)
  | getSampleDuration (info rate : Turn) (firmware : UInt16) (rateInfo : SampleRate)
  | checkExpressScanSupported (turns : Support)
  | startScanNormal (force : Bool) (waits : List Wait) (created : Bool)
  | startScanExpress (fixedAngle : Bool) (waits : List Wait) (created : Bool)
  | startScan (force autoExpressMode : Bool) (turns : Support) (waits : List Wait)
      (created : Bool)
  | stop
  | setMotorPWM (pwm : UInt16)
  | startMotor
  | stopMotor
  | cachethreadReads (n : Nat)
  | cachethreadFails

def resultOf : Except UResult (List UInt8) → UResult
  | .error ans => ans
  | .ok _ => .ok

/-- A call; `none` where there is no answer. -/
def DriverSerialImpl.call (d : DriverSerialImpl) : Call → DriverSerialImpl × Option UResult
  | .connect opens flushed turn => (d.connect opens flushed turn).map id some
  | .disconnect => (d.disconnect, none)
  | .reset => d.reset.map id some
  | .getHealth turn => (d.getHealth turn).map id fun answer => some (resultOf answer)
  | .getDeviceInfo turn => (d.getDeviceInfo turn).map id fun answer => some (resultOf answer)
  | .checkMotorCtrlSupport turn => (d.checkMotorCtrlSupport turn).map id fun r => some r.1
  | .getSampleDuration info rate firmware rateInfo =>
      (d.getSampleDuration info rate firmware rateInfo).map id fun r => some r.1
  | .checkExpressScanSupported turns =>
      (d.checkExpressScanSupported turns).map id fun r => some r.1
  | .startScanNormal force waits created => (d.startScanNormal force waits created).map id some
  | .startScanExpress fixedAngle waits created =>
      (d.startScanExpress fixedAngle waits created).map id some
  | .startScan force autoExpressMode turns waits created =>
      (d.startScan force autoExpressMode turns waits created).map id some
  | .stop => d.stop.map id some
  | .setMotorPWM pwm => (d.setMotorPWM pwm).map id some
  | .startMotor => d.startMotor.map id some
  | .stopMotor => d.stopMotor.map id some
  | .cachethreadReads n =>
      (if d.cachethread = none then d else { d with incoming := d.incoming.drop n }, none)
  | .cachethreadFails => (if d.cachethread = none then d else d.disableDataGrabbing, none)

def serialDriver : Mealy DriverSerialImpl Call (Option UResult) := ⟨DriverSerialImpl.call⟩

/-! ## What the calls do to the driver -/

@[simp] theorem isFail_ok : UResult.ok.isFail = false := rfl

namespace DriverSerialImpl

@[simp] theorem disableDataGrabbing_isConnected (d : DriverSerialImpl) :
    d.disableDataGrabbing.isConnected = d.isConnected := rfl

@[simp] theorem disableDataGrabbing_isScanning (d : DriverSerialImpl) :
    d.disableDataGrabbing.isScanning = false := rfl

@[simp] theorem disableDataGrabbing_cachethread (d : DriverSerialImpl) :
    d.disableDataGrabbing.cachethread = none := rfl

@[simp] theorem disableDataGrabbing_opened (d : DriverSerialImpl) :
    d.disableDataGrabbing.opened = d.opened := rfl

/-! ### What is passed on to the port -/

/-- From `d` to `d'` commands have been issued: some of their bytes have been written, and all
if `write()` never fails. -/
structure Issues (d d' : DriverSerialImpl) (cs : List Command) : Prop where
  issued : d'.issued = d.issued ++ cs
  part : ∃ written, written <+ cs.flatMap Rplidar.sendCommand ∧ d'.sent = d.sent ++ written
  whole : d.writes = [] →
    d'.writes = [] ∧ d'.sent = d.sent ++ cs.flatMap Rplidar.sendCommand

section
variable {d d' d'' : DriverSerialImpl} {cs cs' : List Command}

theorem Issues.nil (hissued : d'.issued = d.issued) (hsent : d'.sent = d.sent)
    (hwrites : d'.writes = d.writes) : Issues d d' [] where
  issued := by rw [hissued, List.append_nil]
  part := ⟨[], .slnil, by rw [hsent, List.append_nil]⟩
  whole h := ⟨hwrites.trans h, by rw [hsent, List.flatMap_nil, List.append_nil]⟩

theorem Issues.trans (h : Issues d d' cs) (h' : Issues d' d'' cs') :
    Issues d d'' (cs ++ cs') where
  issued := by rw [h'.issued, h.issued, List.append_assoc]
  part := by
    obtain ⟨written, hwritten, hsent⟩ := h.part
    obtain ⟨written', hwritten', hsent'⟩ := h'.part
    refine ⟨written ++ written', ?_, by rw [hsent', hsent, List.append_assoc]⟩
    rw [List.flatMap_append]
    exact hwritten.append hwritten'
  whole hall := by
    obtain ⟨hwrites, hsent⟩ := h.whole hall
    obtain ⟨hwrites', hsent'⟩ := h'.whole hwrites
    exact ⟨hwrites', by rw [hsent', hsent, List.flatMap_append, List.append_assoc]⟩

def port (d d' : DriverSerialImpl) : DriverSerialImpl :=
  { d with writes := d'.writes, issued := d'.issued, sent := d'.sent }

theorem senddata_port (d : DriverSerialImpl) (data : List UInt8) :
    d.senddata data = d.port (d.senddata data) := by
  rw [senddata]
  split
  · split <;> rfl
  · rfl

theorem foldl_senddata_port (d : DriverSerialImpl) (pieces : List (List UInt8)) :
    pieces.foldl senddata d = d.port (pieces.foldl senddata d) := by
  induction pieces generalizing d with
  | nil => rfl
  | cons data pieces ih =>
      rw [List.foldl_cons, ih, senddata_port]
      rfl

theorem foldl_senddata (hopened : d.opened = true) (pieces : List (List UInt8)) :
    let d' := pieces.foldl senddata d
    d'.issued = d.issued ∧
      (∃ written, written <+ pieces.flatten ∧ d'.sent = d.sent ++ written) ∧
      (d.writes = [] → d'.writes = [] ∧ d'.sent = d.sent ++ pieces.flatten) := by
  induction pieces generalizing d with
  | nil => exact ⟨rfl, ⟨[], .slnil, by simp⟩, fun h => ⟨h, by simp⟩⟩
  | cons data pieces ih =>
      obtain ⟨d₁, hd₁⟩ : ∃ d₁, d₁ = d.senddata data := ⟨_, rfl⟩
      have hopened₁ : d₁.opened = true := by rw [hd₁, senddata_port]; exact hopened
      have hone : d₁.issued = d.issued ∧
          (∃ written, written <+ data ∧ d₁.sent = d.sent ++ written) ∧
          (d.writes = [] → d₁.writes = [] ∧ d₁.sent = d.sent ++ data) := by
        by_cases hdata : data = []
        · subst hdata
          obtain rfl : d₁ = d := by simp [hd₁, senddata]
          exact ⟨rfl, ⟨[], .slnil, by simp⟩, fun h => ⟨h, by simp⟩⟩
        · cases hwrites : d.writes with
          | nil =>
              obtain rfl : d₁ = { d with sent := d.sent ++ data } := by
                simp [hd₁, senddata, hopened, hdata, hwrites]
              exact ⟨rfl, ⟨data, .refl data, rfl⟩, fun _ => ⟨hwrites, rfl⟩⟩
          | cons written writes =>
              obtain rfl : d₁ = { d with writes, sent := d.sent ++ data.take written } := by
                simp [hd₁, senddata, hopened, hdata, hwrites]
              exact ⟨rfl, ⟨_, List.take_sublist .., rfl⟩, by simp⟩
      obtain ⟨hissued, ⟨written, hwritten, hsent⟩, hall⟩ := hone
      obtain ⟨hissued', ⟨written', hwritten', hsent'⟩, hall'⟩ := ih hopened₁
      rw [List.foldl_cons, ← hd₁, List.flatten_cons]
      refine ⟨hissued'.trans hissued, ⟨written ++ written', hwritten.append hwritten', ?_⟩,
        fun hwrites => ?_⟩
      · rw [hsent', hsent, List.append_assoc]
      · obtain ⟨hwrites₁, hsent₁⟩ := hall hwrites
        obtain ⟨hwrites', hall'⟩ := hall' hwrites₁
        exact ⟨hwrites', by rw [hall', hsent₁, List.append_assoc]⟩

theorem flatten_pieces (c : Command) : c.pieces.flatten = Rplidar.sendCommand c := by
  simp only [Command.pieces, Rplidar.sendCommand, List.flatten_cons]
  generalize (if c.payload ≠ [] then c.cmd ||| 0x80 else c.cmd) = cmd
  by_cases hflag : cmd &&& 0x80 ≠ 0
  · rw [if_pos hflag, if_pos hflag]
    simp
  · rw [if_neg hflag, if_neg hflag]
    rfl

theorem sendCommand_port (d : DriverSerialImpl) (c : Command) :
    (d.sendCommand c).1 = d.port (d.sendCommand c).1 := by
  rw [sendCommand]
  split
  · rfl
  · simp only
    rw [foldl_senddata_port, issue]
    split <;> rfl

theorem sendCommand_closed (hopened : d.opened = false) (c : Command) :
    (d.sendCommand c).1 = d := by
  have hsame (data : List UInt8) : d.senddata data = d := by simp [senddata, hopened]
  have hpieces (pieces : List (List UInt8)) : pieces.foldl senddata d = d := by
    induction pieces with
    | nil => rfl
    | cons data pieces ih => rw [List.foldl_cons, hsame, ih]
  have hissue : d.issue c = d := if_neg (by simp [hopened])
  rw [sendCommand, hissue, hpieces]
  split <;> rfl

theorem issues_sendCommand (d : DriverSerialImpl) (c : Command) :
    Issues d (d.sendCommand c).1 (if d.isConnected ∧ d.opened then [c] else []) := by
  by_cases hconnected : d.isConnected = true
  · by_cases hopened : d.opened = true
    · have hissue : d.issue c = { d with issued := d.issued ++ [c] } := if_pos hopened
      obtain ⟨hissued, hsome, hall⟩ := foldl_senddata (d := d.issue c) (by rwa [hissue]) c.pieces
      rw [flatten_pieces] at hsome hall
      simp only [sendCommand, hconnected, hopened, Bool.not_true, Bool.false_eq_true, if_false,
        and_self, if_true]
      rw [hissue] at hissued hsome hall ⊢
      exact ⟨hissued, by simpa using hsome, by simpa using hall⟩
    · rw [sendCommand_closed (by simpa using hopened), if_neg fun h => hopened h.2]
      exact .nil rfl rfl rfl
  · simpa [sendCommand, hconnected] using Issues.nil (d := d) rfl rfl rfl

theorem sendCommand_of_connected (h : d.isConnected = true) (c : Command) :
    d.sendCommand c = (d.port (d.sendCommand c).1, .ok) :=
  Prod.ext (sendCommand_port d c) (by simp [sendCommand, h])

theorem start_port (d : DriverSerialImpl) (c : Command) :
    (d.stop.1.sendCommand c).1 = d.disableDataGrabbing.port (d.stop.1.sendCommand c).1 := by
  rw [sendCommand_port, stop, sendCommand_port d.disableDataGrabbing]
  rfl

theorem issues_stop (d : DriverSerialImpl) :
    Issues d d.stop.1 (if d.isConnected ∧ d.opened then [.stop] else []) := by
  have hnone : Issues d d.disableDataGrabbing [] := .nil rfl rfl rfl
  exact hnone.trans (issues_sendCommand d.disableDataGrabbing .stop)

theorem issues_start (d : DriverSerialImpl) (c : Command) :
    Issues d (d.stop.1.sendCommand c).1
      (if d.isConnected ∧ d.opened then [.stop, c] else []) := by
  have hsame : d.stop.1.isConnected = d.isConnected ∧ d.stop.1.opened = d.opened := by
    rw [stop, sendCommand_port]
    exact ⟨rfl, rfl⟩
  have htwo := (issues_stop d).trans (issues_sendCommand d.stop.1 c)
  rw [hsame.1, hsame.2] at htwo
  split at htwo
  · rename_i hopened
    rwa [if_pos hopened]
  · rename_i hclosed
    rwa [if_neg hclosed]

theorem start_of_connected (h : d.isConnected = true) (c : Command) :
    d.stop.1.sendCommand c = (d.disableDataGrabbing.port (d.stop.1.sendCommand c).1, .ok) := by
  have hconnected : d.stop.1.isConnected = true := by
    rw [stop, sendCommand_port]
    exact h
  refine Prod.ext (start_port d c) ?_
  rw [sendCommand_of_connected hconnected]

end

theorem waitResponseHeader_closed {d : DriverSerialImpl} (hopened : d.opened = false)
    (waits : List Wait) (stream : List UInt8) : ∃ ans, ans.isFail = true ∧
      waitResponseHeader (waits.map d.waitfordata) stream = (.error ans, stream) := by
  cases waits with
  | nil => exact ⟨.operationTimeout, rfl, rfl⟩
  | cons w waits =>
      refine ⟨.operationFail, rfl, ?_⟩
      rw [List.map_cons, waitfordata, hopened]
      rfl

end DriverSerialImpl

end Rplidar

end Alex
