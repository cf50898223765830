/-
# `Alex.Starting` — when a scan is started, and when none ever will be

`disconnect` closes the port and leaves `_isConnected` as it is.  From then on `connect` has
already been done, what is written is lost, and nothing comes: the driver is `Gone`.
-/
import Alex.Told

namespace Alex

namespace Rplidar

open Cells Bytes Scanner

namespace DriverSerialImpl

/-- After `disconnect`. -/
structure Gone (d : DriverSerialImpl) : Prop where
  isConnected : d.isConnected = true
  closed : d.opened = false
  isScanning : d.isScanning = false
  cachethread : d.cachethread = none

section
variable {d : DriverSerialImpl} {r : Request}

theorem gone_disconnect (h : d.isConnected = true) : d.disconnect.Gone := by
  rw [disconnect, stop, sendCommand_port, if_neg (by simp [h])]
  exact ⟨h, rfl, rfl, rfl⟩

theorem Gone.disableDataGrabbing (h : d.Gone) : d.disableDataGrabbing = d := by
  rw [DriverSerialImpl.disableDataGrabbing, ← h.isScanning, ← h.cachethread]

theorem Gone.sendCommand (h : d.Gone) (c : Command) : d.sendCommand c = (d, .ok) :=
  Prod.ext (sendCommand_closed h.closed c) (by rw [sendCommand_of_connected h.isConnected])

theorem Gone.stop (h : d.Gone) : d.stop = (d, .ok) := by
  rw [DriverSerialImpl.stop, h.disableDataGrabbing, h.sendCommand]

theorem Gone.startMotor (h : d.Gone) : d.startMotor = (d, .ok) := by
  rw [DriverSerialImpl.startMotor, setMotorPWM, h.sendCommand, clearDTR, h.closed]
  split <;> rfl

theorem Gone.stopMotor (h : d.Gone) : d.stopMotor = (d, .ok) := by
  rw [DriverSerialImpl.stopMotor, setMotorPWM, h.sendCommand, setDTR, h.closed]
  split <;> rfl

theorem Gone.ask (h : d.Gone) (r : Request) (turn : Turn) :
    ∃ ans, ans.isFail = true ∧ d.ask r turn = (d, .error ans) := by
  obtain ⟨ans, hfail, hans⟩ := waitResponseHeader_closed h.closed turn.header d.incoming
  refine ⟨ans, hfail, ?_⟩
  rw [DriverSerialImpl.ask, h.sendCommand]
  simp only [isFail_ok, Bool.false_eq_true, if_false, transaction, DriverSerialImpl.turn, hans]

theorem Gone.request (h : d.Gone) (r : Request) (turn : Turn) :
    ∃ ans, ans.isFail = true ∧ d.request r turn = (d, .error ans) := by
  rw [DriverSerialImpl.request, h.disableDataGrabbing]
  simpa [h.isConnected] using h.ask r turn

/-- What lies in `devinfo` decides. -/
theorem Gone.getSampleDuration (h : d.Gone) (info rate : Turn) (firmware : UInt16)
    (rateInfo : SampleRate) : ∃ ans, ans.isFail = true ∧
      d.getSampleDuration info rate firmware rateInfo =
        (d, if firmware < expressFirmware then .ok else ans,
          ⟨d.cachedSampledurationStd, d.cachedSampledurationExpress⟩) := by
  obtain ⟨ans, -, hinfo⟩ := h.request Rplidar.getDeviceInfo info
  obtain ⟨ans', hfail, hrate⟩ := h.ask Rplidar.getSampleDuration rate
  refine ⟨ans', hfail, ?_⟩
  rw [DriverSerialImpl.getSampleDuration, if_neg (by simp [h.isConnected]),
    h.disableDataGrabbing, getDeviceInfo, hinfo]
  simp only [hrate, firmwareOf]
  split <;> rfl

theorem Gone.startWith (h : d.Gone) (start : Request) (thread : CacheThread) (waits : List Wait)
    (created : Bool) : ∃ ans, ans.isFail = true ∧
      d.startWith start thread waits created = (d, ans) := by
  obtain ⟨ans, hfail, hans⟩ := waitResponseHeader_closed h.closed waits d.incoming
  refine ⟨ans, hfail, ?_⟩
  rw [DriverSerialImpl.startWith, if_neg (by simp [h.isConnected]),
    if_neg (by simp [h.isScanning]), h.stop, h.sendCommand]
  simp only [isFail_ok, Bool.false_eq_true, if_false, hans]

theorem Gone.checkExpressScanSupported (h : d.Gone) (turns : Support) :
    ∃ ans, ans.isFail = true ∧ d.checkExpressScanSupported turns = (d, ans, false) := by
  obtain ⟨ans, hfail, hinfo⟩ := h.request Rplidar.getDeviceInfo turns.support
  refine ⟨ans, hfail, ?_⟩
  rw [DriverSerialImpl.checkExpressScanSupported, getDeviceInfo, hinfo]

theorem Gone.startScan (h : d.Gone) (force autoExpressMode : Bool) (turns : Support)
    (waits : List Wait) (created : Bool) : ∃ ans, ans.isFail = true ∧
      d.startScan force autoExpressMode turns waits created = (d, ans) := by
  cases autoExpressMode with
  | false => exact h.startWith ..
  | true =>
      obtain ⟨ans, hfail, hcheck⟩ := h.checkExpressScanSupported turns
      refine ⟨ans, hfail, ?_⟩
      rw [DriverSerialImpl.startScan, hcheck]
      simp [hfail]

end

end DriverSerialImpl

/-- The calls that ask the scanner something, or start a scan. -/
def Call.Asks : Call → Prop
  | .getHealth _ | .getDeviceInfo _ | .checkMotorCtrlSupport _ | .checkExpressScanSupported _
  | .startScanNormal .. | .startScanExpress .. | .startScan .. => True
  | _ => False

/-- The calls that tell it something, and wait for nothing. -/
def Call.Tells : Call → Prop
  | .reset | .stop | .setMotorPWM _ | .startMotor | .stopMotor => True
  | _ => False

/-- What a driver that is gone answers.  `connect` has been done, what asks fails, and what
tells does not look.  `getSampleDuration_uS` goes on without the device information, and
answers by itself if the firmware that lies there is an old one. -/
inductive Call.Refused : Call → Option UResult → Prop
  | connect (opens : Bool) (flushed : Nat) (turn : Turn) :
      Refused (.connect opens flushed turn) (some .alreadyDone)
  | asks {call : Call} {ans : UResult} : call.Asks → ans.isFail = true → Refused call (some ans)
  | tells {call : Call} : call.Tells → Refused call (some .ok)
  | getSampleDuration (info rate : Turn) (firmware : UInt16) (rateInfo : SampleRate)
      {ans : UResult} : ans.isFail = true →
      Refused (.getSampleDuration info rate firmware rateInfo)
        (some (if firmware < expressFirmware then .ok else ans))
  | disconnect : Refused .disconnect none
  | cachethreadReads (n : Nat) : Refused (.cachethreadReads n) none
  | cachethreadFails : Refused .cachethreadFails none

/-- **Step.**  Nothing changes. -/
theorem DriverSerialImpl.Gone.call {d : DriverSerialImpl} (h : d.Gone) (call : Call) :
    (d.call call).1 = d ∧ call.Refused (d.call call).2 := by
  cases call with
  | connect opens flushed turn =>
      have hdone : d.connect opens flushed turn = (d, .alreadyDone) := by
        rw [DriverSerialImpl.connect, if_pos h.isConnected]
      rw [DriverSerialImpl.call, hdone]
      exact ⟨rfl, .connect opens flushed turn⟩
  | disconnect =>
      have hclosed : { d with opened := false } = d := by
        rw [← h.closed]
      rw [DriverSerialImpl.call, DriverSerialImpl.disconnect, h.stop]
      refine ⟨?_, .disconnect⟩
      split
      · rfl
      · exact hclosed
  | reset =>
      rw [DriverSerialImpl.call, DriverSerialImpl.reset, h.sendCommand]
      exact ⟨rfl, .tells trivial⟩
  | getHealth turn =>
      obtain ⟨ans, hfail, hans⟩ := h.request Rplidar.getHealth turn
      rw [DriverSerialImpl.call, DriverSerialImpl.getHealth, hans]
      exact ⟨rfl, .asks trivial hfail⟩
  | getDeviceInfo turn =>
      obtain ⟨ans, hfail, hans⟩ := h.request Rplidar.getDeviceInfo turn
      rw [DriverSerialImpl.call, DriverSerialImpl.getDeviceInfo, hans]
      exact ⟨rfl, .asks trivial hfail⟩
  | checkMotorCtrlSupport turn =>
      obtain ⟨ans, hfail, hans⟩ := h.request Rplidar.checkMotorCtrlSupport turn
      rw [DriverSerialImpl.call, DriverSerialImpl.checkMotorCtrlSupport, hans]
      exact ⟨rfl, .asks trivial hfail⟩
  | getSampleDuration info rate firmware rateInfo =>
      obtain ⟨ans, hfail, hans⟩ := h.getSampleDuration info rate firmware rateInfo
      rw [DriverSerialImpl.call, hans]
      exact ⟨rfl, .getSampleDuration info rate firmware rateInfo hfail⟩
  | checkExpressScanSupported turns =>
      obtain ⟨ans, hfail, hans⟩ := h.checkExpressScanSupported turns
      rw [DriverSerialImpl.call, hans]
      exact ⟨rfl, .asks trivial hfail⟩
  | startScanNormal force waits created =>
      obtain ⟨ans, hfail, hans⟩ := h.startWith _ _ waits created
      rw [DriverSerialImpl.call, DriverSerialImpl.startScanNormal, hans]
      exact ⟨rfl, .asks trivial hfail⟩
  | startScanExpress fixedAngle waits created =>
      obtain ⟨ans, hfail, hans⟩ := h.startWith _ _ waits created
      rw [DriverSerialImpl.call, DriverSerialImpl.startScanExpress, hans]
      exact ⟨rfl, .asks trivial hfail⟩
  | startScan force autoExpressMode turns waits created =>
      obtain ⟨ans, hfail, hans⟩ := h.startScan force autoExpressMode turns waits created
      rw [DriverSerialImpl.call, hans]
      exact ⟨rfl, .asks trivial hfail⟩
  | stop =>
      rw [DriverSerialImpl.call, h.stop]
      exact ⟨rfl, .tells trivial⟩
  | setMotorPWM pwm =>
      rw [DriverSerialImpl.call, DriverSerialImpl.setMotorPWM, h.sendCommand]
      exact ⟨rfl, .tells trivial⟩
  | startMotor =>
      rw [DriverSerialImpl.call, h.startMotor]
      exact ⟨rfl, .tells trivial⟩
  | stopMotor =>
      rw [DriverSerialImpl.call, h.stopMotor]
      exact ⟨rfl, .tells trivial⟩
  | cachethreadReads n =>
      rw [DriverSerialImpl.call, if_pos h.cachethread]
      exact ⟨rfl, .cachethreadReads n⟩
  | cachethreadFails =>
      rw [DriverSerialImpl.call, if_pos h.cachethread]
      exact ⟨rfl, .cachethreadFails⟩

/-- **Disconnected.**  After `disconnect` nothing that is called changes anything: nothing is
written or taken, no scan is started, and every call is `Refused`. -/
theorem disconnected_for_good (dtr : Bool) (writes : List Nat) (incoming : List UInt8)
    (calls more : List Call)
    (hconnected : (serialDriver.final (.initial dtr writes incoming) calls).isConnected = true) :
    let gone := serialDriver.final (.initial dtr writes incoming) (calls ++ [.disconnect])
    gone.opened = false ∧ gone.isScanning = false ∧ gone.cachethread = none ∧
      serialDriver.final gone more = gone ∧
      ∀ e ∈ more.zip (serialDriver.outputs gone more), e.1.Refused e.2 := by
  intro gone
  have hgone : gone.Gone := by
    rw [show gone = _ from serialDriver.final_append ..]
    exact DriverSerialImpl.gone_disconnect hconnected
  refine ⟨hgone.closed, hgone.isScanning, hgone.cachethread, ?_⟩
  clear_value gone
  induction more with
  | nil => exact ⟨rfl, by simp⟩
  | cons call more ih =>
      obtain ⟨hsame, hrefused⟩ := hgone.call call
      have hstep : (serialDriver.step gone call).1 = gone := hsame
      rw [Mealy.final_cons, Mealy.outputs_cons, hstep]
      refine ⟨ih.1, fun e he => ?_⟩
      rcases List.mem_cons.mp he with rfl | he
      · exact hrefused
      · exact ih.2 e he

theorem disconnected_for_good_startScan :
    let calls : List Call := [.connect true 0 ⟨[], .ok 4⟩]
    let gone := serialDriver.final (.initial false [] []) (calls ++ [.disconnect])
    serialDriver.final gone [.connect true 0 ⟨[], .ok 4⟩, .startScanNormal true [.ok 7] true] =
      gone := by
  intro calls gone
  exact (disconnected_for_good false [] [] calls _ rfl).2.2.2.1

/-! ## What a scan is started on -/

/-- The type and the size of what the thread reads. -/
def CacheThread.ansType : CacheThread → UInt8
  | .cacheScanData => 0x81
  | .cacheCapsuledScanData => 0x82

def CacheThread.ansSize : CacheThread → Nat
  | .cacheScanData => sizeofNode
  | .cacheCapsuledScanData => 84

namespace DriverSerialImpl

/-- From `d` to `d'` a scan has been started: after some requests a `STOP` and the command have
been issued, and a header of the type has been taken, behind which the thread begins. -/
structure Started (d d' : DriverSerialImpl) (t : CacheThread) : Prop where
  opened : d.opened = true
  isScanning : d'.isScanning = true
  cachethread : d'.cachethread = some t
  header : ∃ skipped header, d.incoming = skipped ++ AnsHeader.bytes header ++ d'.incoming ∧
    header.type = t.ansType ∧ t.ansSize ≤ header.size
  issues : ∃ (asked : List Request) (start : Command),
    (∀ r ∈ asked, r = Rplidar.getDeviceInfo ∨ r = Rplidar.getSampleDuration) ∧
      start.starts = some t ∧ Issues d d' (asked.map Request.command ++ [.stop, start])

/-- From `d` to `d'` requests have been issued, and something may have been taken. -/
structure Asked (d d' : DriverSerialImpl) (asked : List Request) : Prop where
  connected : d'.isConnected = d.isConnected
  opened : d'.opened = d.opened
  isScanning : d'.isScanning = false
  cachethread : d'.cachethread = none
  incoming : ∃ skipped, d.incoming = skipped ++ d'.incoming
  issues : d.opened = true → Issues d d' (asked.map Request.command)

section
variable {d d' d'' : DriverSerialImpl} {asked asked' : List Request} {r : Request}

theorem Asked.trans (h : Asked d d' asked) (h' : Asked d' d'' asked') :
    Asked d d'' (asked ++ asked') where
  connected := h'.connected.trans h.connected
  opened := h'.opened.trans h.opened
  isScanning := h'.isScanning
  cachethread := h'.cachethread
  incoming := by
    obtain ⟨skipped, hskipped⟩ := h.incoming
    obtain ⟨skipped', hskipped'⟩ := h'.incoming
    exact ⟨skipped ++ skipped', by rw [hskipped, hskipped', List.append_assoc]⟩
  issues hopened := by
    rw [List.map_append]
    exact (h.issues hopened).trans (h'.issues (h.opened.trans hopened))

theorem asked_disableDataGrabbing (d : DriverSerialImpl) : Asked d d.disableDataGrabbing [] :=
  ⟨rfl, rfl, rfl, rfl, ⟨[], rfl⟩, fun _ => .nil rfl rfl rfl⟩

theorem ask_spec (hconnected : d.isConnected = true) (hscanning : d.isScanning = false)
    (hthread : d.cachethread = none) (r : Request) (turn : Turn) :
    Asked d (d.ask r turn).1 [r] ∧ (d.ask r turn).2 = (transaction r (d.turn turn) d.incoming).1 ∧
      (d.ask r turn).1.incoming = (transaction r (d.turn turn) d.incoming).2 := by
  obtain ⟨d₁, hd₁⟩ : ∃ d₁, d.sendCommand r.command = (d.port d₁, .ok) :=
    ⟨_, sendCommand_of_connected hconnected r.command⟩
  have hissues := issues_sendCommand d r.command
  rw [hd₁] at hissues
  rw [DriverSerialImpl.ask, hd₁]
  simp only [isFail_ok, Bool.false_eq_true, if_false]
  refine ⟨⟨rfl, rfl, hscanning, hthread, (transaction_sound r (d.turn turn) d.incoming).1,
    fun hopened => ?_⟩, rfl, rfl⟩
  rw [if_pos ⟨hconnected, hopened⟩] at hissues
  exact ⟨hissues.issued, hissues.part, hissues.whole⟩

theorem request_spec (hconnected : d.isConnected = true) (r : Request) (turn : Turn) :
    Asked d (d.request r turn).1 [r] ∧
      d.request r turn =
        ((d.request r turn).1, (transaction r (d.turn turn) d.incoming).1) ∧
      (d.request r turn).1.incoming = (transaction r (d.turn turn) d.incoming).2 := by
  obtain ⟨hasked, hanswer, htaken⟩ :=
    ask_spec (d := d.disableDataGrabbing) hconnected rfl rfl r turn
  rw [DriverSerialImpl.request, if_neg (by simp [hconnected])]
  exact ⟨(asked_disableDataGrabbing d).trans hasked, Prod.ext rfl hanswer, htaken⟩

theorem getSampleDuration_spec (hconnected : d.isConnected = true) (info rate : Turn)
    (firmware : UInt16) (rateInfo : SampleRate) :
    ∃ asked, (∀ r ∈ asked, r = Rplidar.getDeviceInfo ∨ r = Rplidar.getSampleDuration) ∧
      Asked d (d.getSampleDuration info rate firmware rateInfo).1 asked := by
  rw [DriverSerialImpl.getSampleDuration, if_neg (by simp [hconnected])]
  obtain ⟨hinfo, -⟩ :=
    request_spec (d := d.disableDataGrabbing) hconnected Rplidar.getDeviceInfo info
  have hinfo' := (asked_disableDataGrabbing d).trans hinfo
  rcases hone : d.disableDataGrabbing.getDeviceInfo info with ⟨d', answer⟩
  rw [show d.disableDataGrabbing.request _ info = _ from hone] at hinfo'
  simp only
  split
  · exact ⟨_, by simp, hinfo'⟩
  · obtain ⟨hrate, -⟩ := ask_spec (hinfo'.connected.trans hconnected) hinfo'.isScanning
      hinfo'.cachethread Rplidar.getSampleDuration rate
    rcases hask : d'.ask Rplidar.getSampleDuration rate with ⟨d'', ans | answer⟩ <;>
      rw [hask] at hrate <;> exact ⟨_, by simp, hinfo'.trans hrate⟩

/-- What is answered to be supported is what the device information says. -/
theorem checkExpressScanSupported_spec (hconnected : d.isConnected = true) (turns : Support) :
    ∃ asked, (∀ r ∈ asked, r = Rplidar.getDeviceInfo ∨ r = Rplidar.getSampleDuration) ∧
      Asked d (d.checkExpressScanSupported turns).1 asked ∧
      ((d.checkExpressScanSupported turns).2.1.isFail = false →
        ∃ devinfo, (transaction Rplidar.getDeviceInfo (d.turn turns.support) d.incoming).1 =
            .ok devinfo ∧
          ((d.checkExpressScanSupported turns).2.2 = true ↔
            expressFirmware ≤ firmwareVersion devinfo)) := by
  obtain ⟨hinfo, hanswer, -⟩ := request_spec hconnected Rplidar.getDeviceInfo turns.support
  rw [DriverSerialImpl.checkExpressScanSupported]
  rcases hone : d.getDeviceInfo turns.support with ⟨d', ans | devinfo⟩
  all_goals rw [show d.request Rplidar.getDeviceInfo turns.support = _ from hone] at hinfo hanswer
  all_goals replace hanswer := congrArg Prod.snd hanswer
  · have hfail : ans.isFail = true := transaction_isFail hanswer.symm
    exact ⟨_, by simp, hinfo, by simp [hfail]⟩
  · simp only
    split
    · rename_i hold
      exact ⟨_, by simp, hinfo, fun _ => ⟨devinfo, hanswer.symm, by simpa using hold⟩⟩
    · rename_i hnew
      obtain ⟨asked, hall, hrate⟩ := getSampleDuration_spec (hinfo.connected.trans hconnected)
        turns.info turns.rate turns.firmware turns.sampleRate
      refine ⟨_, ?_, hinfo.trans ⟨hrate.connected, hrate.opened, hrate.isScanning,
        hrate.cachethread, hrate.incoming, fun hopened => ⟨(hrate.issues hopened).issued,
          (hrate.issues hopened).part, (hrate.issues hopened).whole⟩⟩,
        fun _ => ⟨devinfo, hanswer.symm, by simpa using hnew⟩⟩
      intro r hr
      rcases List.mem_append.mp hr with hr | hr
      · exact .inl (List.mem_singleton.mp hr)
      · exact hall r hr

theorem Asked.started {t : CacheThread} (h : Asked d d' asked)
    (hall : ∀ r ∈ asked, r = Rplidar.getDeviceInfo ∨ r = Rplidar.getSampleDuration)
    (hstarted : Started d' d'' t) : Started d d'' t where
  opened := h.opened.symm.trans hstarted.opened
  isScanning := hstarted.isScanning
  cachethread := hstarted.cachethread
  header := by
    obtain ⟨skipped, hskipped⟩ := h.incoming
    obtain ⟨skipped', header, hheader, htype⟩ := hstarted.header
    refine ⟨skipped ++ skipped', header, ?_, htype⟩
    rw [hskipped, hheader]
    simp
  issues := by
    obtain ⟨asked', start, hall', hstart, hissues⟩ := hstarted.issues
    refine ⟨asked ++ asked', start, fun r hr => ?_, hstart, ?_⟩
    · exact (List.mem_append.mp hr).elim (hall r) (hall' r)
    · rw [List.map_append, List.append_assoc]
      exact (h.issues (h.opened.symm.trans hstarted.opened)).trans hissues

/-- What comes of a start: a scan, a failure, or nothing, since there is a scan. -/
inductive Outcome (d : DriverSerialImpl) (t : CacheThread) : DriverSerialImpl × UResult → Prop
  | started {d' : DriverSerialImpl} : d.isScanning = false → d.Started d' t → Outcome d t (d', .ok)
  | failed {d' : DriverSerialImpl} {ans : UResult} : ans.isFail = true →
      d' = d ∨ d'.cachethread = none → Outcome d t (d', ans)
  | alreadyDone : d.isScanning = true → Outcome d t (d, .alreadyDone)

theorem startWith_outcome {start : Request} {thread : CacheThread} (waits : List Wait)
    (created : Bool) (hstarts : start.command.starts = some thread)
    (htype : start.ansType = thread.ansType) (hsize : start.ansSize = thread.ansSize) :
    d.Outcome thread (d.startWith start thread waits created) := by
  rw [startWith]
  by_cases hconnected : d.isConnected = true
  swap
  · rw [if_pos (by simpa using hconnected)]
    exact .failed rfl (.inl rfl)
  rw [if_neg (by simp [hconnected])]
  by_cases hscanning : d.isScanning = true
  · rw [if_pos hscanning]
    exact .alreadyDone hscanning
  have hissues := issues_start d start.command
  obtain ⟨d₁, hone, hd₁⟩ : ∃ d₁, d.stop.1.sendCommand start.command = (d₁, .ok) ∧
      d₁ = d.disableDataGrabbing.port d₁ := by
    refine ⟨_, start_of_connected hconnected start.command, rfl⟩
  rw [hone] at hissues
  rw [if_neg hscanning, hone]
  simp only [isFail_ok, Bool.false_eq_true, if_false]
  have hnone : d₁.cachethread = none := by
    rw [hd₁]
    rfl
  rcases hwait : waitResponseHeader (waits.map d₁.waitfordata) d₁.incoming with
    ⟨ans | header, rest⟩
  · exact .failed (isFail_waitRecord (waitInto_error hwait)) (.inr hnone)
  have hopened : d.opened = true := by
    by_contra hclosed
    have hclosed' : d₁.opened = false := by
      rw [hd₁]
      show d.opened = false
      simpa using hclosed
    obtain ⟨ans, -, hans⟩ := waitResponseHeader_closed hclosed' waits d₁.incoming
    simp [hwait] at hans
  obtain ⟨skipped, hskipped⟩ := waitResponseHeader_sound hwait
  simp only
  split
  · exact .failed rfl (.inr hnone)
  rename_i hheader
  split
  · exact .failed rfl (.inr hnone)
  rename_i hlong
  cases created with
  | false => exact .failed rfl (.inr hnone)
  | true =>
      refine .started (by simpa using hscanning)
        ⟨hopened, rfl, rfl, ?_, [], start.command, by simp, hstarts, ?_⟩
      · refine ⟨skipped, header, ?_, ?_, ?_⟩
        · refine Eq.trans ?_ hskipped
          rw [hd₁]
          rfl
        · rw [← htype]
          simpa using hheader
        · rw [← hsize]
          exact Nat.not_lt.mp hlong
      · rw [if_pos ⟨hconnected, hopened⟩] at hissues
        exact ⟨hissues.issued, hissues.part, hissues.whole⟩

theorem startScanNormal_outcome (force : Bool) (waits : List Wait) (created : Bool) :
    d.Outcome .cacheScanData (d.startScanNormal force waits created) := by
  cases force <;> exact startWith_outcome waits created rfl rfl rfl

theorem startScanExpress_outcome (fixedAngle : Bool) (waits : List Wait) (created : Bool) :
    d.Outcome .cacheCapsuledScanData (d.startScanExpress fixedAngle waits created) := by
  cases fixedAngle <;> exact startWith_outcome waits created rfl rfl rfl

end

end DriverSerialImpl

/-- **Starting a scan.**  Whatever comes and whatever `write()` does: if `startScan` succeeds
there is a thread that begins behind a header of its type, and it is the thread of the express
scan exactly if that was asked for and the firmware in the answer to the first request knows
it.  If it does not succeed there is no thread, unless nothing has been done at all; and that a
scan has already been started is answered only if the express scan is not asked for. -/
theorem scan_started (d : DriverSerialImpl) (force autoExpressMode : Bool) (turns : Support)
    (waits : List Wait) (created : Bool) :
    let result := d.startScan force autoExpressMode turns waits created
    (result.2 = .ok → ∃ t, d.Started result.1 t ∧
      (autoExpressMode = false → d.isScanning = false ∧ t = .cacheScanData) ∧
      (autoExpressMode = true → ∃ devinfo rest,
        transaction getDeviceInfo (d.turn turns.support) d.incoming = (.ok devinfo, rest) ∧
        Answers getDeviceInfo devinfo d.incoming rest ∧
        (t = .cacheCapsuledScanData ↔ expressFirmware ≤ firmwareVersion devinfo))) ∧
    (result.2 ≠ .ok → result.1 = d ∨ result.1.cachethread = none) ∧
    (result.2 = .alreadyDone → autoExpressMode = false ∧ d.isScanning = true) := by
  intro result
  cases autoExpressMode with
  | false =>
      have houtcome : d.Outcome .cacheScanData result :=
        DriverSerialImpl.startScanNormal_outcome force waits created
      clear_value result
      cases houtcome with
      | started hscanning h =>
          exact ⟨fun _ => ⟨_, h, fun _ => ⟨hscanning, rfl⟩, by simp⟩, by simp, by simp⟩
      | failed hfail h =>
          refine ⟨?_, fun _ => h, ?_⟩ <;> rintro rfl <;> exact absurd hfail (by decide)
      | alreadyDone hscanning =>
          exact ⟨by simp, fun _ => .inl rfl, fun _ => ⟨rfl, hscanning⟩⟩
  | true =>
      by_cases hconnected : d.isConnected = true
      swap
      · have hfail : UResult.operationFail.isFail = true := rfl
        have hresult : result = (d, .operationFail) := by
          simp [result, DriverSerialImpl.startScan, DriverSerialImpl.checkExpressScanSupported,
            DriverSerialImpl.getDeviceInfo, DriverSerialImpl.request, hconnected, hfail]
        rw [hresult]
        exact ⟨by simp, fun _ => .inl rfl, by simp⟩
      obtain ⟨asked, hall, hasked, hfirmware⟩ :=
        d.checkExpressScanSupported_spec hconnected turns
      rcases hcheck : d.checkExpressScanSupported turns with ⟨d₁, ans₁, supported⟩
      rw [hcheck] at hasked hfirmware
      by_cases hfail : ans₁.isFail = true
      · have hresult : result = (d₁, ans₁) := by
          simp [result, DriverSerialImpl.startScan, hcheck, hfail]
        rw [hresult]
        refine ⟨?_, fun _ => .inr hasked.cachethread, ?_⟩ <;> rintro rfl <;>
          exact absurd hfail (by decide)
      obtain ⟨devinfo, hdevinfo, hsupported⟩ := hfirmware (by simpa using hfail)
      have hanswer := (transaction_sound getDeviceInfo (d.turn turns.support) d.incoming).2
        devinfo hdevinfo
      have houtcome : ∃ t, (t = .cacheCapsuledScanData ↔ supported = true) ∧
          d₁.Outcome t result := by
        cases supported with
        | false =>
            refine ⟨.cacheScanData, by simp, ?_⟩
            have hresult : result = d₁.startScanNormal force waits created := by
              simp [result, DriverSerialImpl.startScan, hcheck, hfail]
            rw [hresult]
            exact DriverSerialImpl.startScanNormal_outcome force waits created
        | true =>
            refine ⟨.cacheCapsuledScanData, by simp, ?_⟩
            have hresult : result = d₁.startScanExpress false waits created := by
              simp [result, DriverSerialImpl.startScan, hcheck, hfail]
            rw [hresult]
            exact DriverSerialImpl.startScanExpress_outcome false waits created
      obtain ⟨t, ht, houtcome⟩ := houtcome
      clear_value result
      cases houtcome with
      | started hscanning h =>
          refine ⟨fun _ => ⟨t, hasked.started hall h, by simp, fun _ => ?_⟩, by simp, by simp⟩
          exact ⟨devinfo, _, Prod.ext hdevinfo rfl, hanswer, ht.trans hsupported⟩
      | failed hfail h =>
          refine ⟨?_, fun _ => .inr ?_, ?_⟩
          · rintro rfl
            exact absurd hfail (by decide)
          · rcases h with rfl | h
            · exact hasked.cachethread
            · exact h
          · rintro rfl
            exact absurd hfail (by decide)
      | alreadyDone hscanning => exact absurd (hasked.isScanning.symm.trans hscanning) (by simp)

end Rplidar

end Alex
