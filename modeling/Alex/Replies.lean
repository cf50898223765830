/-
# `Alex.Replies` — a scan is started if the scanner replies

What comes when a scan is started with the express scan asked for is one line of bytes:

    old firmware    info                 header of nodes      the nodes
    new firmware    info  info  rate     header of capsules   the capsules

each behind what the answer before it announced and nobody took.  `startScan` takes all but
the last, and that is what the thread begins with.
-/
import Alex.Starting

namespace Alex

namespace Rplidar

open Cells Bytes Scanner

theorem getD_take {l : List UInt8} {n i : Nat} (h : i < n) :
    (l.take n).getD i 0 = l.getD i 0 := by
  simp [List.getD_eq_getElem?_getD, h]

namespace Reply

def firmwareVersion (p : Reply) : UInt16 := Rplidar.firmwareVersion p.data

def sampleRate (p : Reply) : SampleRate := .ofMemory fun i => p.data.getD i 0

theorem firmwareVersion_take (p : Reply) :
    Rplidar.firmwareVersion (p.data.take 20) = p.firmwareVersion := by
  rw [firmwareVersion, Rplidar.firmwareVersion, Rplidar.firmwareVersion, half, half,
    getD_take (by decide), getD_take (by decide)]

theorem sampleRate_take (p : Reply) :
    SampleRate.ofMemory (fun i => (p.data.take 4).getD i 0) = p.sampleRate := by
  simp only [sampleRate, SampleRate.ofMemory, half]
  rw [getD_take (by decide), getD_take (by decide), getD_take (by decide), getD_take (by decide)]

end Reply

/-- Something comes at every wait, until all has come. -/
structure Support.Comes (turns : Support) (stream : List UInt8) : Prop where
  support : turns.support.Comes stream
  info : turns.info.Comes stream
  rate : turns.rate.Comes stream

namespace DriverSerialImpl

section
variable {d : DriverSerialImpl} {r : Request} {turn : Turn} {left rest : List UInt8} {p : Reply}

theorem sendCommand_of_written (hconnected : d.isConnected = true) (hopened : d.opened = true)
    (hwrites : d.writes = []) (c : Command) :
    d.sendCommand c = ({ d with
      issued := d.issued ++ [c], sent := d.sent ++ Rplidar.sendCommand c }, .ok) := by
  have hissues := issues_sendCommand d c
  rw [if_pos ⟨hconnected, hopened⟩] at hissues
  obtain ⟨hwrites', hsent⟩ := hissues.whole hwrites
  rw [sendCommand_of_connected hconnected, port, hissues.issued, hwrites', hsent, ← hwrites]
  simp

theorem start_of_written (hconnected : d.isConnected = true) (hopened : d.opened = true)
    (hwrites : d.writes = []) (c : Command) :
    d.stop.1.sendCommand c = ({ d.disableDataGrabbing with
      issued := d.issued ++ [.stop, c]
      sent := d.sent ++ (Rplidar.sendCommand .stop ++ Rplidar.sendCommand c) }, .ok) := by
  have hissues := issues_start d c
  rw [if_pos ⟨hconnected, hopened⟩] at hissues
  obtain ⟨hwrites', hsent⟩ := hissues.whole hwrites
  rw [start_of_connected hconnected, port, hissues.issued, hwrites', hsent, ← hwrites]
  simp [disableDataGrabbing]

def answered (d : DriverSerialImpl) (c : Command) (rest : List UInt8) : DriverSerialImpl :=
  { d.disableDataGrabbing with
    issued := d.issued ++ [c], sent := d.sent ++ Rplidar.sendCommand c, incoming := rest }

@[simp] theorem answered_isConnected (d : DriverSerialImpl) (c : Command) (rest : List UInt8) :
    (d.answered c rest).isConnected = d.isConnected := rfl

@[simp] theorem answered_opened (d : DriverSerialImpl) (c : Command) (rest : List UInt8) :
    (d.answered c rest).opened = d.opened := rfl

@[simp] theorem answered_writes (d : DriverSerialImpl) (c : Command) (rest : List UInt8) :
    (d.answered c rest).writes = d.writes := rfl

@[simp] theorem answered_isScanning (d : DriverSerialImpl) (c : Command) (rest : List UInt8) :
    (d.answered c rest).isScanning = false := rfl

@[simp] theorem answered_incoming (d : DriverSerialImpl) (c : Command) (rest : List UInt8) :
    (d.answered c rest).incoming = rest := rfl

theorem disableDataGrabbing_answered (d : DriverSerialImpl) (c : Command) (rest : List UInt8) :
    (d.answered c rest).disableDataGrabbing = d.answered c rest := rfl

theorem answered_disableDataGrabbing (d : DriverSerialImpl) (c : Command) (rest : List UInt8) :
    d.disableDataGrabbing.answered c rest = d.answered c rest := rfl

theorem turn_of_opened (h : d.opened = true) (turn : Turn) : d.turn turn = turn := by
  have hwait : d.waitfordata = id := funext fun w => if_pos h
  simp [DriverSerialImpl.turn, hwait]

/-- A request that is replied to is answered, and what is left lies before what comes next. -/
theorem ask_reply (hconnected : d.isConnected = true) (hopened : d.opened = true)
    (hwrites : d.writes = []) (hincoming : d.incoming = left ++ p.bytes r ++ rest)
    (hleft : ∀ b ∈ left, b ≠ 0xA5) (hp : p.Fits r) (hturn : turn.Comes d.incoming) :
    d.disableDataGrabbing.ask r turn =
      (d.answered r.command (p.data.drop r.ansSize ++ rest), .ok (p.data.take r.ansSize)) := by
  have hanswer := transaction_reply hleft hp (hincoming ▸ hturn)
  rw [← hincoming] at hanswer
  rw [DriverSerialImpl.ask,
    sendCommand_of_written (d := d.disableDataGrabbing) hconnected hopened hwrites]
  simp only [isFail_ok, Bool.false_eq_true, if_false]
  rw [turn_of_opened (by exact hopened),
    show d.disableDataGrabbing.incoming = d.incoming from rfl, hanswer]
  rfl

theorem request_reply (hconnected : d.isConnected = true) (hopened : d.opened = true)
    (hwrites : d.writes = []) (hincoming : d.incoming = left ++ p.bytes r ++ rest)
    (hleft : ∀ b ∈ left, b ≠ 0xA5) (hp : p.Fits r) (hturn : turn.Comes d.incoming) :
    d.request r turn =
      (d.answered r.command (p.data.drop r.ansSize ++ rest), .ok (p.data.take r.ansSize)) := by
  rw [DriverSerialImpl.request, if_neg (by simp [hconnected])]
  exact ask_reply hconnected hopened hwrites hincoming hleft hp hturn

theorem startWith_reply {start : Request} {thread : CacheThread} {waits : List Wait}
    {header : AnsHeader} (hconnected : d.isConnected = true) (hopened : d.opened = true)
    (hwrites : d.writes = []) (hscanning : d.isScanning = false)
    (hincoming : d.incoming = left ++ header.bytes ++ rest)
    (hleft : ∀ b ∈ left, b ≠ 0xA5) (h₁ : header.syncByte1 = 0xA5) (h₂ : header.syncByte2 = 0x5A)
    (htype : header.type = start.ansType) (hsize : start.ansSize ≤ header.size)
    (hwaits : ∀ w ∈ waits, ∃ n, w = .ok n ∧ 0 < n) (hlen : d.incoming.length ≤ waits.length) :
    d.startWith start thread waits true = ({ d with
      isScanning := true
      cachethread := some thread
      issued := d.issued ++ [.stop, start.command]
      sent := d.sent ++ (Rplidar.sendCommand .stop ++ Rplidar.sendCommand start.command)
      incoming := rest }, .ok) := by
  have hheader := waitResponseHeader_next h₁ h₂ hleft hwaits (hincoming ▸ hlen)
  have hwait (issued : List Command) (sent : List UInt8) : waits.map
      (waitfordata { d.disableDataGrabbing with issued := issued, sent := sent }) = waits := by
    have hid : waitfordata { d.disableDataGrabbing with issued := issued, sent := sent } = id :=
      funext fun w => if_pos hopened
    rw [hid, List.map_id]
  rw [startWith, if_neg (by simp [hconnected]), if_neg (by simp [hscanning]),
    start_of_written hconnected hopened hwrites]
  simp only [isFail_ok, Bool.false_eq_true, if_false, hwait]
  rw [show d.disableDataGrabbing.incoming = _ from hincoming, hheader]
  simp [htype, hsize, disableDataGrabbing]

/-- `getSampleDuration_uS` takes two answers. -/
theorem getSampleDuration_reply {info rate : Turn} {again sampled : Reply}
    (hconnected : d.isConnected = true) (hopened : d.opened = true) (hwrites : d.writes = [])
    (hincoming : d.incoming = left ++ again.bytes Rplidar.getDeviceInfo ++
      (sampled.bytes Rplidar.getSampleDuration ++ rest)) (hleft : ∀ b ∈ left, b ≠ 0xA5)
    (hagain : again.Fits Rplidar.getDeviceInfo) (hsampled : sampled.Fits Rplidar.getSampleDuration)
    (hinfo : info.Comes d.incoming) (hrate : rate.Comes d.incoming)
    (hnew : expressFirmware ≤ again.firmwareVersion) (firmware : UInt16) (rateInfo : SampleRate) :
    d.getSampleDuration info rate firmware rateInfo =
      ((d.answered Rplidar.getDeviceInfo.command
          (again.data.drop 20 ++ (sampled.bytes Rplidar.getSampleDuration ++ rest))).answered
          Rplidar.getSampleDuration.command (sampled.data.drop 4 ++ rest),
        .ok, sampled.sampleRate) := by
  have hone : d.disableDataGrabbing.getDeviceInfo info = _ :=
    request_reply (d := d.disableDataGrabbing) hconnected hopened hwrites hincoming hleft hagain
      hinfo
  have hversion : ¬ firmwareOf firmware (.ok (again.data.take 20)) < expressFirmware := by
    rw [firmwareOf, again.firmwareVersion_take]
    simpa using hnew
  obtain ⟨d₁, hd₁⟩ : ∃ d₁, d₁ = d.answered Rplidar.getDeviceInfo.command
      (again.data.drop 20 ++ (sampled.bytes Rplidar.getSampleDuration ++ rest)) := ⟨_, rfl⟩
  have hsame : d₁.disableDataGrabbing = d₁ := by rw [hd₁, disableDataGrabbing_answered]
  have hincoming₁ : d₁.incoming = again.data.drop 20 ++
      sampled.bytes Rplidar.getSampleDuration ++ rest := by
    rw [hd₁, answered_incoming, List.append_assoc]
  have hcomes : rate.Comes d₁.incoming := by
    refine hrate.mono ?_
    rw [hincoming₁, hincoming]
    simp [Reply.bytes]
    omega
  have htwo := ask_reply (d := d₁) (by rwa [hd₁]) (by rwa [hd₁]) (by rwa [hd₁]) hincoming₁
    hagain.extra hsampled hcomes
  rw [hsame] at htwo
  rw [DriverSerialImpl.getSampleDuration, if_neg (by simp [hconnected]), hone,
    answered_disableDataGrabbing, show Rplidar.getDeviceInfo.ansSize = 20 from rfl, ← hd₁]
  simp only [hversion, if_false, htwo]
  rw [show Rplidar.getSampleDuration.ansSize = 4 from rfl, sampled.sampleRate_take]

/-- Old firmware: only the device information is asked for. -/
theorem checkExpressScanSupported_old {info : Reply} {turns : Support}
    (hconnected : d.isConnected = true) (hopened : d.opened = true) (hwrites : d.writes = [])
    (hincoming : d.incoming = left ++ info.bytes Rplidar.getDeviceInfo ++ rest)
    (hleft : ∀ b ∈ left, b ≠ 0xA5) (hinfo : info.Fits Rplidar.getDeviceInfo)
    (hturns : turns.Comes d.incoming) (hold : ¬ expressFirmware ≤ info.firmwareVersion) :
    d.checkExpressScanSupported turns =
      (d.answered Rplidar.getDeviceInfo.command (info.data.drop 20 ++ rest), .ok, false) := by
  have hone : d.getDeviceInfo turns.support = _ :=
    request_reply hconnected hopened hwrites hincoming hleft hinfo hturns.support
  have hversion : Rplidar.firmwareVersion (info.data.take 20) < expressFirmware := by
    rw [info.firmwareVersion_take]
    simpa using hold
  rw [DriverSerialImpl.checkExpressScanSupported, hone,
    show Rplidar.getDeviceInfo.ansSize = 20 from rfl]
  simp only [hversion, if_true]

/-- New firmware: it is asked for again, and then the sample rate. -/
theorem checkExpressScanSupported_new {info again sampled : Reply} {turns : Support}
    (hconnected : d.isConnected = true) (hopened : d.opened = true) (hwrites : d.writes = [])
    (hincoming : d.incoming = left ++ info.bytes Rplidar.getDeviceInfo ++
      (again.bytes Rplidar.getDeviceInfo ++ (sampled.bytes Rplidar.getSampleDuration ++ rest)))
    (hleft : ∀ b ∈ left, b ≠ 0xA5) (hinfo : info.Fits Rplidar.getDeviceInfo)
    (hagain : again.Fits Rplidar.getDeviceInfo) (hsampled : sampled.Fits Rplidar.getSampleDuration)
    (hturns : turns.Comes d.incoming) (hnew : expressFirmware ≤ info.firmwareVersion)
    (hnew' : expressFirmware ≤ again.firmwareVersion) :
    d.checkExpressScanSupported turns = ({ d.disableDataGrabbing with
      cachedSampledurationStd := sampled.sampleRate.stdSampleDurationUs
      cachedSampledurationExpress := sampled.sampleRate.expressSampleDurationUs
      issued := d.issued ++ [Rplidar.getDeviceInfo.command, Rplidar.getDeviceInfo.command,
        Rplidar.getSampleDuration.command]
      sent := d.sent ++ [Rplidar.getDeviceInfo.command, Rplidar.getDeviceInfo.command,
        Rplidar.getSampleDuration.command].flatMap Rplidar.sendCommand
      incoming := sampled.data.drop 4 ++ rest }, .ok, true) := by
  have hone : d.getDeviceInfo turns.support = _ :=
    request_reply hconnected hopened hwrites hincoming hleft hinfo hturns.support
  have hversion : ¬ Rplidar.firmwareVersion (info.data.take 20) < expressFirmware := by
    rw [info.firmwareVersion_take]
    simpa using hnew
  obtain ⟨d₁, hd₁⟩ : ∃ d₁, d₁ = d.answered Rplidar.getDeviceInfo.command (info.data.drop 20 ++
      (again.bytes Rplidar.getDeviceInfo ++ (sampled.bytes Rplidar.getSampleDuration ++ rest))) :=
    ⟨_, rfl⟩
  have hincoming₁ : d₁.incoming = info.data.drop 20 ++ again.bytes Rplidar.getDeviceInfo ++
      (sampled.bytes Rplidar.getSampleDuration ++ rest) := by
    rw [hd₁, answered_incoming, List.append_assoc]
  have hlen : d₁.incoming.length ≤ d.incoming.length := by
    rw [hincoming₁, hincoming]
    simp [Reply.bytes]
    omega
  have htwo := getSampleDuration_reply (d := d₁) (by rwa [hd₁]) (by rwa [hd₁])
    (by rwa [hd₁]) hincoming₁
    hinfo.extra hagain hsampled (hturns.info.mono hlen) (hturns.rate.mono hlen) hnew'
    turns.firmware turns.sampleRate
  rw [DriverSerialImpl.checkExpressScanSupported, hone,
    show Rplidar.getDeviceInfo.ansSize = 20 from rfl, ← hd₁]
  simp only [hversion, if_false, htwo]
  simp [hd₁, answered, disableDataGrabbing]

end

end DriverSerialImpl

/-! ## What comes -/

/-- What the scanner sends when a scan is started: the replies, and then the header. -/
structure Startup where
  info : Reply
  again : Reply
  sampled : Reply
  junk : List UInt8
  sizeQ30Subtype : UInt32

namespace Startup

/-- The thread that the firmware is for. -/
def thread (s : Startup) : CacheThread :=
  if expressFirmware ≤ s.info.firmwareVersion then .cacheCapsuledScanData else .cacheScanData

def header (s : Startup) : AnsHeader := ⟨0xA5, 0x5A, s.sizeQ30Subtype, s.thread.ansType⟩

def replies (s : Startup) : List UInt8 :=
  s.info.bytes getDeviceInfo ++
    if expressFirmware ≤ s.info.firmwareVersion then
      s.again.bytes getDeviceInfo ++ s.sampled.bytes getSampleDuration
    else []

def bytes (s : Startup) : List UInt8 := s.replies ++ s.junk ++ s.header.bytes

def commands (s : Startup) (force : Bool) : List Command :=
  if expressFirmware ≤ s.info.firmwareVersion then
    [getDeviceInfo.command, getDeviceInfo.command, getSampleDuration.command, .stop,
      ⟨0x82, [0, 0, 0, 0, 0]⟩]
  else [getDeviceInfo.command, .stop, ⟨if force then 0x21 else 0x20, []⟩]

def sampleRate (s : Startup) (before : SampleRate) : SampleRate :=
  if expressFirmware ≤ s.info.firmwareVersion then s.sampled.sampleRate else before

/-- The replies are as the requests want them, and do not look like a header in between. -/
structure Fits (s : Startup) : Prop where
  info : s.info.Fits getDeviceInfo
  again : expressFirmware ≤ s.info.firmwareVersion → s.again.Fits getDeviceInfo ∧
    expressFirmware ≤ s.again.firmwareVersion
  sampled : expressFirmware ≤ s.info.firmwareVersion → s.sampled.Fits getSampleDuration
  junk : ∀ b ∈ s.junk, b ≠ 0xA5
  size : s.thread.ansSize ≤ s.header.size

end Startup

/-- **A scan on request.**  If the scanner replies and no `write()` fails, the express scan is
started if the firmware knows it and the other one if not; the commands are these, all that
comes before the scan is taken, and nothing of the scan. -/
theorem scan_on_request {d : DriverSerialImpl} {s : Startup} {turns : Support}
    {waits : List Wait} {left scan : List UInt8} (force : Bool) (hconnected : d.isConnected = true)
    (hopened : d.opened = true) (hwrites : d.writes = []) (hs : s.Fits)
    (hleft : ∀ b ∈ left, b ≠ 0xA5)
    (hincoming : d.incoming = left ++ s.bytes ++ scan) (hturns : turns.Comes d.incoming)
    (hwaits : ∀ w ∈ waits, ∃ n, w = .ok n ∧ 0 < n) (hlen : d.incoming.length ≤ waits.length) :
    let rate := s.sampleRate ⟨d.cachedSampledurationStd, d.cachedSampledurationExpress⟩
    d.startScan force true turns waits true = ({ d with
      isScanning := true
      cachethread := some s.thread
      cachedSampledurationStd := rate.stdSampleDurationUs
      cachedSampledurationExpress := rate.expressSampleDurationUs
      issued := d.issued ++ s.commands force
      sent := d.sent ++ (s.commands force).flatMap sendCommand
      incoming := scan }, .ok) := by
  intro rate
  by_cases hnew : expressFirmware ≤ s.info.firmwareVersion
  · have hthread : s.thread = .cacheCapsuledScanData := if_pos hnew
    have hall : d.incoming = left ++ s.info.bytes getDeviceInfo ++ (s.again.bytes getDeviceInfo ++
        (s.sampled.bytes getSampleDuration ++ (s.junk ++ s.header.bytes ++ scan))) := by
      rw [hincoming, Startup.bytes, Startup.replies, if_pos hnew]
      simp
    have hcheck := d.checkExpressScanSupported_new hconnected hopened hwrites hall hleft hs.info
      (hs.again hnew).1 (hs.sampled hnew) hturns hnew (hs.again hnew).2
    generalize hd₁ : ({ d.disableDataGrabbing with
      cachedSampledurationStd := s.sampled.sampleRate.stdSampleDurationUs
      cachedSampledurationExpress := s.sampled.sampleRate.expressSampleDurationUs
      issued := d.issued ++ [getDeviceInfo.command, getDeviceInfo.command,
        getSampleDuration.command]
      sent := d.sent ++ [getDeviceInfo.command, getDeviceInfo.command,
        getSampleDuration.command].flatMap sendCommand
      incoming := s.sampled.data.drop 4 ++ (s.junk ++ s.header.bytes ++ scan) } :
        DriverSerialImpl) = d₁ at hcheck
    have hincoming₁ : d₁.incoming = s.sampled.data.drop 4 ++ s.junk ++ s.header.bytes ++ scan := by
      rw [← hd₁]
      simp
    have hjunk : ∀ b ∈ s.sampled.data.drop 4 ++ s.junk, b ≠ 0xA5 := by
      intro b hb
      exact (List.mem_append.mp hb).elim ((hs.sampled hnew).extra b) (hs.junk b)
    have hlen₁ : d₁.incoming.length ≤ waits.length := by
      refine Nat.le_trans ?_ hlen
      rw [hincoming₁, hall]
      simp [Reply.bytes]
      omega
    have hsize := hs.size
    rw [hthread] at hsize
    have hstart : d₁.startScanExpress false waits true = _ :=
      DriverSerialImpl.startWith_reply (by rwa [← hd₁]) (by rwa [← hd₁]) (by rwa [← hd₁])
        (by rw [← hd₁]; rfl) hincoming₁ hjunk rfl rfl (congrArg CacheThread.ansType hthread) hsize
        hwaits hlen₁
    rw [DriverSerialImpl.startScan, if_pos rfl, hcheck]
    simp only [isFail_ok, Bool.false_eq_true, if_false, if_true, hstart]
    simp [← hd₁, hthread, rate, Startup.sampleRate, Startup.commands, hnew,
      DriverSerialImpl.disableDataGrabbing]
  · have hthread : s.thread = .cacheScanData := if_neg hnew
    have hall : d.incoming =
        left ++ s.info.bytes getDeviceInfo ++ (s.junk ++ s.header.bytes ++ scan) := by
      rw [hincoming, Startup.bytes, Startup.replies, if_neg hnew]
      simp
    have hcheck := d.checkExpressScanSupported_old hconnected hopened hwrites hall hleft hs.info
      hturns hnew
    generalize hd₁ : d.answered getDeviceInfo.command
      (s.info.data.drop 20 ++ (s.junk ++ s.header.bytes ++ scan)) = d₁ at hcheck
    have hincoming₁ : d₁.incoming = s.info.data.drop 20 ++ s.junk ++ s.header.bytes ++ scan := by
      rw [← hd₁]
      simp
    have hjunk : ∀ b ∈ s.info.data.drop 20 ++ s.junk, b ≠ 0xA5 := by
      intro b hb
      exact (List.mem_append.mp hb).elim (hs.info.extra b) (hs.junk b)
    have hlen₁ : d₁.incoming.length ≤ waits.length := by
      refine Nat.le_trans ?_ hlen
      rw [hincoming₁, hall]
      simp [Reply.bytes]
      omega
    have hsize := hs.size
    rw [hthread] at hsize
    have hstart : d₁.startScanNormal force waits true = _ :=
      DriverSerialImpl.startWith_reply (by rwa [← hd₁]) (by rwa [← hd₁]) (by rwa [← hd₁])
        (by rw [← hd₁]; rfl) hincoming₁ hjunk rfl rfl (congrArg CacheThread.ansType hthread) hsize
        hwaits hlen₁
    rw [DriverSerialImpl.startScan, if_pos rfl, hcheck]
    simp only [isFail_ok, Bool.false_eq_true, if_false, hstart]
    simp [← hd₁, hthread, rate, Startup.sampleRate, Startup.commands, hnew,
      DriverSerialImpl.answered, DriverSerialImpl.disableDataGrabbing]

theorem scan_on_request_express :
    let info : Reply := ⟨[], 20, 0x18 :: 0x11 :: 0x01 :: List.replicate 17 0⟩
    let s : Startup := ⟨info, info, ⟨[], 4, [0xDC, 0x01, 0x01, 0x01]⟩, [0x3F], 84⟩
    let d : DriverSerialImpl := { DriverSerialImpl.initial false [] ([] ++ s.bytes ++ [0xA5, 0x50])
      with isConnected := true, opened := true }
    let turn : Turn := ⟨List.replicate 80 (.ok 7), .ok 20⟩
    let result := d.startScan false true ⟨turn, turn, turn, 0, ⟨0, 0⟩⟩ turn.header true
    result.2 = .ok ∧ result.1.cachethread = some .cacheCapsuledScanData ∧
      result.1.cachedSampledurationExpress = 257 ∧ result.1.incoming = [0xA5, 0x50] := by
  intro info s d turn result
  have hwaits : ∀ w ∈ turn.header, ∃ n, w = .ok n ∧ 0 < n := fun w hw =>
    ⟨7, List.eq_of_mem_replicate hw, by decide⟩
  have hcomes : turn.Comes d.incoming := ⟨hwaits, by decide, 20, rfl⟩
  have hnone : ∀ b ∈ ([] : List UInt8), b ≠ 0xA5 := by simp
  have hinfo : info.Fits getDeviceInfo := ⟨hnone, by decide, by decide, hnone⟩
  have hs : s.Fits := ⟨hinfo, fun _ => ⟨hinfo, by decide⟩,
    fun _ => ⟨hnone, by decide, by decide, hnone⟩, by simp [s], by decide⟩
  have hresult : result = _ := scan_on_request false (d := d) (s := s) rfl rfl rfl hs (by simp) rfl
    ⟨hcomes, hcomes, hcomes⟩ hwaits (by decide)
  rw [hresult]
  exact ⟨rfl, by decide, by decide, rfl⟩

end Rplidar

end Alex
