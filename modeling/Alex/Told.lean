/-
# `Alex.Told` — what the scanner is told, and what the driver does

`Told` is what there is to say about the commands alone: a scan is started right behind a
`STOP`, and while it goes on the scanner is told nothing but of its motor, or to reset.

    Told cs g     the commands so far, and the scan that goes on
    d.Keeps g     what has been issued is this, and the thread reads that scan
    d.Sound       for some scan, or none, which is what every call preserves
-/
import Alex.Calls

namespace Alex

namespace Rplidar

open Bytes
open scoped List

/-! ## What the scanner is told -/

/-- The scan that a command starts. -/
def Command.starts (c : Command) : Option CacheThread :=
  if c.cmd = 0x20 ∨ c.cmd = 0x21 then some .cacheScanData
  else if c.cmd = 0x82 then some .cacheCapsuledScanData
  else none

/-- `RPLIDAR_CMD_RESET`, `RPLIDAR_CMD_SET_MOTOR_PWM`: the driver goes on with its scan. -/
def Command.Aside (c : Command) : Prop := c.cmd = 0x40 ∨ c.cmd = 0xF0

/-- The commands in order, and the scan that goes on. -/
inductive Told : List Command → Option CacheThread → Prop
  | nil : Told [] none
  | other {cs : List Command} (c : Command) : c.starts = none → Told cs none →
      Told (cs ++ [c]) none
  | start {cs : List Command} (c : Command) (t : CacheThread) : c.starts = some t →
      Told cs none → Told (cs ++ [.stop, c]) (some t)
  | aside {cs : List Command} {t : CacheThread} (c : Command) : c.Aside →
      Told cs (some t) → Told (cs ++ [c]) (some t)
  | ended {cs : List Command} {t : CacheThread} : Told cs (some t) → Told cs none

theorem Command.Aside.starts {c : Command} (h : c.Aside) : c.starts = none := by
  rcases h with h | h <;> simp [Command.starts, h]

theorem mem_before_last {α : Type} {xs before after : List α} {x y : α} (hne : x ≠ y)
    (h : xs ++ [x] = before ++ y :: after) : ∃ after', xs = before ++ y :: after' := by
  rcases List.eq_nil_or_concat after with rfl | ⟨after', last, rfl⟩
  · obtain ⟨-, hlast⟩ := List.append_inj' h rfl
    exact absurd (List.singleton_inj.mp hlast) hne
  · rw [List.concat_eq_append, ← List.cons_append, ← List.append_assoc] at h
    exact ⟨after', (List.append_inj' h rfl).1⟩

section
variable {cs before after : List Command} {c : Command} {g : Option CacheThread} {t : CacheThread}

/-- A command that starts a scan comes right behind a `STOP`. -/
theorem Told.behind_stop (h : Told cs g) (hcs : cs = before ++ c :: after) (hc : c.starts ≠ none) :
    ∃ earlier, before = earlier ++ [.stop] := by
  induction h generalizing after with
  | nil => simp at hcs
  | other d hd _ ih =>
      obtain ⟨after', hbefore⟩ := mem_before_last (by rintro rfl; exact hc hd) hcs
      exact ih hbefore
  | aside d hd _ ih =>
      obtain ⟨after', hbefore⟩ := mem_before_last (by rintro rfl; exact hc hd.starts) hcs
      exact ih hbefore
  | ended _ ih => exact ih hcs
  | @start cs d t hd _ ih =>
      rcases List.eq_nil_or_concat after with rfl | ⟨after', last, rfl⟩
      · have hcs' : (cs ++ [.stop]) ++ [d] = before ++ [c] := by simpa using hcs
        exact ⟨cs, (List.append_inj' hcs' rfl).1.symm⟩
      · have hcs' : (cs ++ [.stop]) ++ [d] = (before ++ c :: after') ++ [last] := by
          simpa using hcs
        have hstop : Command.stop ≠ c := by
          rintro rfl
          exact hc rfl
        obtain ⟨after'', hbefore⟩ := mem_before_last hstop (List.append_inj' hcs' rfl).1
        exact ih hbefore

/-- Since a scan that goes on has been started, it has been all about the motor, or a reset. -/
theorem Told.since (h : Told cs (some t)) : ∃ before start after,
    cs = before ++ .stop :: start :: after ∧ start.starts = some t ∧ ∀ c ∈ after, c.Aside := by
  obtain ⟨g, hg⟩ : ∃ g, g = some t := ⟨_, rfl⟩
  rw [← hg] at h
  induction h with
  | nil | other | ended => cases hg
  | @start cs c t' hc =>
      cases hg
      exact ⟨cs, c, [], rfl, hc, by simp⟩
  | @aside cs t' c hc _ ih =>
      obtain ⟨before, start, after, rfl, hstart, hafter⟩ := ih hg
      refine ⟨before, start, after ++ [c], by simp, hstart, fun d hd => ?_⟩
      rcases List.mem_append.mp hd with hd | hd
      · exact hafter d hd
      · rwa [List.mem_singleton.mp hd]

end

/-! ## The driver keeps to it -/

/-- What has been issued are commands, of which what has been sent is part, and all unless
`write()` may fail.  The scan that goes on is the one that the driver reads, and the port is
open as long as there is one. -/
structure DriverSerialImpl.Keeps (faultless : Prop) (d : DriverSerialImpl)
    (g : Option CacheThread) : Prop where
  proper : ∀ c ∈ d.issued, c.Proper
  told : Told d.issued g
  part : d.sent <+ d.issued.flatMap Rplidar.sendCommand
  whole : faultless → d.writes = [] ∧ d.sent = d.issued.flatMap Rplidar.sendCommand
  scanning : d.isScanning = g.isSome
  thread : ∀ t, d.cachethread = some t → g = some t
  connected : d.opened = true → d.isConnected = true
  opened : d.isScanning = true → d.opened = true

namespace DriverSerialImpl

/-- What `Keeps` is about is the same. -/
structure Alike (d d' : DriverSerialImpl) : Prop where
  isConnected : d'.isConnected = d.isConnected
  isScanning : d'.isScanning = d.isScanning
  cachethread : d'.cachethread = d.cachethread
  opened : d'.opened = d.opened
  issued : d'.issued = d.issued
  sent : d'.sent = d.sent
  writes : d'.writes = d.writes

section
variable {faultless : Prop} {d d' : DriverSerialImpl} {cs : List Command}
  {g : Option CacheThread} {c : Command} {t : CacheThread}

theorem initial_keeps (dtr : Bool) (writes : List Nat) (incoming : List UInt8) :
    Keeps (writes = []) (initial dtr writes incoming) none where
  proper := by simp [initial]
  told := .nil
  part := .slnil
  whole h := ⟨h, rfl⟩
  scanning := rfl
  thread := by simp [initial]
  connected := by simp [initial]
  opened := by simp [initial]

theorem Keeps.congr (h : d.Keeps faultless g) (hd : Alike d d') : d'.Keeps faultless g where
  proper := by
    rw [hd.issued]
    exact h.proper
  told := by
    rw [hd.issued]
    exact h.told
  part := by
    rw [hd.issued, hd.sent]
    exact h.part
  whole := by
    rw [hd.issued, hd.sent, hd.writes]
    exact h.whole
  scanning := hd.isScanning.trans h.scanning
  thread t ht := h.thread t (hd.cachethread.symm.trans ht)
  connected := by
    rw [hd.opened, hd.isConnected]
    exact h.connected
  opened := by
    rw [hd.isScanning, hd.opened]
    exact h.opened

theorem Keeps.issues {g' : Option CacheThread} (h : d.Keeps faultless g) (hd : Issues d d' cs)
    (hproper : ∀ c ∈ cs, c.Proper) (htold : Told (d.issued ++ cs) g')
    (hscanning : d'.isScanning = g'.isSome) (hthread : ∀ t, d'.cachethread = some t → g' = some t)
    (hconnected : d'.opened = true → d'.isConnected = true)
    (hopened : d'.isScanning = true → d'.opened = true) : d'.Keeps faultless g' where
  proper c hc := by
    rw [hd.issued] at hc
    exact (List.mem_append.mp hc).elim (h.proper c) (hproper c)
  told := by rwa [hd.issued]
  part := by
    obtain ⟨written, hwritten, hsent⟩ := hd.part
    rw [hd.issued, hsent, List.flatMap_append]
    exact h.part.append hwritten
  whole hall := by
    obtain ⟨hwrites, hsent⟩ := h.whole hall
    obtain ⟨hwrites', hsent'⟩ := hd.whole hwrites
    exact ⟨hwrites', by rw [hd.issued, hsent', hsent, List.flatMap_append]⟩
  scanning := hscanning
  thread := hthread
  connected := hconnected
  opened := hopened

theorem Keeps.disableDataGrabbing (h : d.Keeps faultless g) :
    d.disableDataGrabbing.Keeps faultless none := by
  have htold : Told d.issued none := by
    cases g with
    | none => exact h.told
    | some t => exact .ended h.told
  exact ⟨h.proper, htold, h.part, h.whole, rfl, by simp, h.connected, by simp⟩

theorem Keeps.sendCommand (h : d.Keeps faultless g) (hc : c.Proper)
    (htold : ∀ {cs}, Told cs g → Told (cs ++ [c]) g) : (d.sendCommand c).1.Keeps faultless g := by
  have hissues := issues_sendCommand d c
  rw [sendCommand_port] at hissues ⊢
  split at hissues
  · exact h.issues hissues (by simpa using hc) (htold h.told) h.scanning h.thread h.connected
      h.opened
  · exact h.issues hissues (by simp) (by simpa using h.told) h.scanning h.thread h.connected
      h.opened

theorem Keeps.other (h : d.Keeps faultless none) (hc : c.Proper) (hother : c.starts = none) :
    (d.sendCommand c).1.Keeps faultless none :=
  h.sendCommand hc (.other c hother)

theorem Keeps.aside (h : d.Keeps faultless g) (hc : c.Proper) (haside : c.Aside) :
    (d.sendCommand c).1.Keeps faultless g := by
  refine h.sendCommand hc ?_
  cases g with
  | none => exact .other c haside.starts
  | some t => exact .aside c haside

/-- Some scan, or none. -/
def Sound (faultless : Prop) (d : DriverSerialImpl) : Prop := ∃ g, d.Keeps faultless g

theorem Sound.congr (h : d.Sound faultless) (hd : Alike d d') : d'.Sound faultless := by
  obtain ⟨g, h⟩ := h
  exact ⟨g, h.congr hd⟩

theorem requests_start_none :
    ∀ r ∈ [Rplidar.getHealth, Rplidar.getDeviceInfo, Rplidar.getSampleDuration,
      Rplidar.checkMotorCtrlSupport], r.command.starts = none := by
  decide

variable {r : Request} {turn : Turn}

theorem Keeps.ask (h : d.Keeps faultless none) (hr : r.command.Proper)
    (hother : r.command.starts = none) (turn : Turn) : (d.ask r turn).1.Keeps faultless none := by
  have hsent := h.other hr hother
  rw [DriverSerialImpl.ask]
  rcases hone : d.sendCommand r.command with ⟨d', ans⟩
  rw [hone] at hsent
  simp only
  split
  · exact hsent
  · exact hsent.congr ⟨rfl, rfl, rfl, rfl, rfl, rfl, rfl⟩

theorem Keeps.request (h : d.Keeps faultless g) (hconnected : d.isConnected = true)
    (hr : r.command.Proper) (hother : r.command.starts = none) (turn : Turn) :
    (d.request r turn).1.Keeps faultless none := by
  rw [DriverSerialImpl.request]
  simp only [hconnected, Bool.not_true, Bool.false_eq_true, if_false]
  exact h.disableDataGrabbing.ask hr hother turn

theorem Sound.request (h : d.Sound faultless) (hr : r.command.Proper)
    (hother : r.command.starts = none) (turn : Turn) : (d.request r turn).1.Sound faultless := by
  obtain ⟨g, h⟩ := h
  by_cases hconnected : d.isConnected = true
  · exact ⟨none, h.request hconnected hr hother turn⟩
  · rw [DriverSerialImpl.request]
    simpa [hconnected] using ⟨g, h⟩

theorem Sound.getHealth (h : d.Sound faultless) (turn : Turn) :
    (d.getHealth turn).1.Sound faultless :=
  h.request (requests_proper _ (by simp)) (requests_start_none _ (by simp)) turn

theorem Sound.getDeviceInfo (h : d.Sound faultless) (turn : Turn) :
    (d.getDeviceInfo turn).1.Sound faultless :=
  h.request (requests_proper _ (by simp)) (requests_start_none _ (by simp)) turn

theorem Sound.checkMotorCtrlSupport (h : d.Sound faultless) (turn : Turn) :
    (d.checkMotorCtrlSupport turn).1.Sound faultless := by
  have hrequest := h.request (requests_proper Rplidar.checkMotorCtrlSupport (by simp))
    (requests_start_none Rplidar.checkMotorCtrlSupport (by simp)) turn
  rw [DriverSerialImpl.checkMotorCtrlSupport]
  rcases hone : d.request Rplidar.checkMotorCtrlSupport turn with ⟨d', ans | flag⟩ <;>
    simpa [hone] using hrequest

theorem Sound.getSampleDuration (h : d.Sound faultless) (info rate : Turn) (firmware : UInt16)
    (rateInfo : SampleRate) :
    (d.getSampleDuration info rate firmware rateInfo).1.Sound faultless := by
  obtain ⟨g, h⟩ := h
  rw [DriverSerialImpl.getSampleDuration]
  by_cases hconnected : d.isConnected = true
  · have hinfo : (d.disableDataGrabbing.getDeviceInfo info).1.Keeps faultless none :=
      h.disableDataGrabbing.request hconnected (requests_proper _ (by simp))
        (requests_start_none _ (by simp)) info
    simp only [hconnected, Bool.not_true, Bool.false_eq_true, if_false]
    rcases hone : d.disableDataGrabbing.getDeviceInfo info with ⟨d', answer⟩
    rw [hone] at hinfo
    have hrate := hinfo.ask (requests_proper Rplidar.getSampleDuration (by simp))
      (requests_start_none Rplidar.getSampleDuration (by simp)) rate
    simp only
    split
    · exact ⟨none, hinfo⟩
    · rcases hask : d'.ask Rplidar.getSampleDuration rate with ⟨d'', ans | answer⟩ <;>
        rw [hask] at hrate <;> exact ⟨none, hrate⟩
  · simpa [hconnected] using ⟨g, h⟩

theorem Sound.checkExpressScanSupported (h : d.Sound faultless) (turns : Support) :
    (d.checkExpressScanSupported turns).1.Sound faultless := by
  have hinfo := h.getDeviceInfo turns.support
  rw [DriverSerialImpl.checkExpressScanSupported]
  rcases hone : d.getDeviceInfo turns.support with ⟨d', ans | devinfo⟩
  · rwa [hone] at hinfo
  · rw [hone] at hinfo
    simp only
    split
    · exact hinfo
    · exact (hinfo.getSampleDuration ..).congr ⟨rfl, rfl, rfl, rfl, rfl, rfl, rfl⟩

theorem stop_proper : Command.stop.Proper := ⟨by decide, by decide⟩

/-- The scan that is started goes on, whether or not there is a thread. -/
theorem Keeps.started (h : d.Keeps faultless g) (hc : c.Proper) (hstarts : c.starts = some t)
    (hconnected : d.isConnected = true) (hopened : d.opened = true) (thread : Option CacheThread)
    (hthread : ∀ t', thread = some t' → t' = t) :
    Keeps faultless
      { (d.stop.1.sendCommand c).1 with isScanning := true, cachethread := thread }
      (some t) := by
  have hissues := issues_start d c
  rw [if_pos ⟨hconnected, hopened⟩] at hissues
  have hissues' : Issues d
      { (d.stop.1.sendCommand c).1 with isScanning := true, cachethread := thread } [.stop, c] :=
    ⟨hissues.issued, hissues.part, hissues.whole⟩
  have hproper : ∀ c' ∈ [.stop, c], c'.Proper := by
    simpa using ⟨stop_proper, hc⟩
  rw [start_port] at hissues' ⊢
  exact h.issues hissues' hproper (.start c t hstarts h.disableDataGrabbing.told) rfl
    (fun t' ht' => by rw [hthread t' ht']) h.connected (fun _ => hopened)

theorem Keeps.stop (h : d.Keeps faultless g) : d.stop.1.Keeps faultless none :=
  h.disableDataGrabbing.other stop_proper rfl

/-- A scan that is refused has been started, but it does not go on. -/
theorem Keeps.refused (h : d.Keeps faultless g) (hc : c.Proper) (hstarts : c.starts = some t) :
    (d.stop.1.sendCommand c).1.Keeps faultless none := by
  by_cases hopened : d.isConnected = true ∧ d.opened = true
  · have hstarted := h.started hc hstarts hopened.1 hopened.2 none (by simp)
    refine hstarted.disableDataGrabbing.congr ⟨rfl, ?_, ?_, rfl, rfl, rfl, rfl⟩ <;>
      rw [start_port] <;> rfl
  · have hissues := issues_start d c
    rw [if_neg hopened] at hissues
    rw [start_port] at hissues ⊢
    exact h.disableDataGrabbing.issues
      ⟨hissues.issued, hissues.part, hissues.whole⟩ (by simp)
      (by simpa using h.disableDataGrabbing.told) rfl (by simp [port]) h.connected (by simp [port])

theorem Sound.startWith {start : Request} {thread : CacheThread} (h : d.Sound faultless)
    (hstart : start.command.Proper) (hstarts : start.command.starts = some thread)
    (waits : List Wait) (created : Bool) :
    (d.startWith start thread waits created).1.Sound faultless := by
  obtain ⟨g, h⟩ := h
  rw [DriverSerialImpl.startWith]
  by_cases hconnected : d.isConnected = true
  · by_cases hscanning : d.isScanning = true
    · simpa [hconnected, hscanning] using ⟨g, h⟩
    · have hrefused := h.refused hstart hstarts
      have hstarted (hopened : d.opened = true) :=
        h.started hstart hstarts hconnected hopened
      have hsame : (d.stop.1.sendCommand start.command).1.opened = d.opened ∧
          (d.stop.1.sendCommand start.command).1.cachethread = none := by
        rw [start_port]
        exact ⟨rfl, rfl⟩
      simp only [hconnected, hscanning, Bool.not_true, Bool.false_eq_true, if_false]
      rcases hone : d.stop.1.sendCommand start.command with ⟨d', ans⟩
      simp only [hone] at hrefused hstarted hsame
      by_cases hfail : ans.isFail = true
      · simpa [hfail] using ⟨none, hrefused⟩
      rcases hwait : waitResponseHeader (waits.map d'.waitfordata) d'.incoming with
        ⟨ans' | header, rest⟩
      · simpa [hfail, hwait] using ⟨none, hrefused.congr ⟨rfl, rfl, rfl, rfl, rfl, rfl, rfl⟩⟩
      · have hopened : d.opened = true := by
          by_contra hclosed
          have hclosed' : d'.opened = false := by simpa [hsame] using hclosed
          obtain ⟨ans', -, hans'⟩ := waitResponseHeader_closed hclosed' waits d'.incoming
          simp [hwait] at hans'
        simp only [hfail, Bool.false_eq_true, if_false]
        split
        · exact ⟨none, hrefused.congr ⟨rfl, rfl, rfl, rfl, rfl, rfl, rfl⟩⟩
        split
        · exact ⟨none, hrefused.congr ⟨rfl, rfl, rfl, rfl, rfl, rfl, rfl⟩⟩
        split
        · exact ⟨some thread, (hstarted hopened (some thread) (by simp)).congr
            ⟨rfl, rfl, rfl, rfl, rfl, rfl, rfl⟩⟩
        · exact ⟨some thread, (hstarted hopened none (by simp)).congr
            ⟨rfl, rfl, hsame.2, rfl, rfl, rfl, rfl⟩⟩
  · simpa [hconnected] using ⟨g, h⟩

theorem Sound.startScanNormal (h : d.Sound faultless) (force : Bool) (waits : List Wait)
    (created : Bool) :
    (d.startScanNormal force waits created).1.Sound faultless := by
  cases force <;> exact h.startWith ⟨by decide, by decide⟩ rfl waits created

theorem Sound.startScanExpress (h : d.Sound faultless) (fixedAngle : Bool) (waits : List Wait)
    (created : Bool) : (d.startScanExpress fixedAngle waits created).1.Sound faultless := by
  cases fixedAngle <;> exact h.startWith ⟨by decide, by decide⟩ rfl waits created

theorem Sound.startScan (h : d.Sound faultless) (force autoExpressMode : Bool) (turns : Support)
    (waits : List Wait) (created : Bool) :
    (d.startScan force autoExpressMode turns waits created).1.Sound faultless := by
  have hcheck := h.checkExpressScanSupported turns
  rw [DriverSerialImpl.startScan]
  cases autoExpressMode with
  | false => exact h.startScanNormal force waits created
  | true =>
      rcases hone : d.checkExpressScanSupported turns with ⟨d', ans, supported⟩
      rw [hone] at hcheck
      simp only [if_true]
      split
      · exact hcheck
      split
      · exact hcheck.startScanExpress false waits created
      · exact hcheck.startScanNormal force waits created

theorem Sound.setMotorPWM (h : d.Sound faultless) (pwm : UInt16) :
    (d.setMotorPWM pwm).1.Sound faultless := by
  obtain ⟨g, h⟩ := h
  exact ⟨g, h.aside ⟨by simp [ofHalf], fun _ => by simp [ofHalf],
    fun _ => show (0xF0 : UInt8) &&& 0x80 ≠ 0 by decide⟩ (.inr rfl)⟩

theorem Sound.reset (h : d.Sound faultless) : d.reset.1.Sound faultless := by
  obtain ⟨g, h⟩ := h
  exact ⟨g, h.aside ⟨by decide, by decide⟩ (.inl rfl)⟩

theorem Sound.startMotor (h : d.Sound faultless) : d.startMotor.1.Sound faultless := by
  rw [DriverSerialImpl.startMotor, clearDTR]
  split
  · exact h.setMotorPWM 660
  · split
    · exact h.congr ⟨rfl, rfl, rfl, rfl, rfl, rfl, rfl⟩
    · exact h

theorem Sound.stopMotor (h : d.Sound faultless) : d.stopMotor.1.Sound faultless := by
  rw [DriverSerialImpl.stopMotor, setDTR]
  split
  · exact h.setMotorPWM 0
  · split
    · exact h.congr ⟨rfl, rfl, rfl, rfl, rfl, rfl, rfl⟩
    · exact h

theorem Sound.stop (h : d.Sound faultless) : d.stop.1.Sound faultless := by
  obtain ⟨g, h⟩ := h
  exact ⟨none, h.stop⟩

theorem Sound.idle (h : d.Sound faultless) (hconnected : d.isConnected = false) :
    d.Keeps faultless none ∧ d.opened = false := by
  obtain ⟨g, h⟩ := h
  have hopened : d.opened = false := by
    by_contra hopened
    simp [h.connected (by simpa using hopened)] at hconnected
  have hscanning : d.isScanning = false := by
    by_contra hscanning
    simp [h.opened (by simpa using hscanning)] at hopened
  have hg : g = none := by simpa [hscanning] using h.scanning
  exact ⟨hg ▸ h, hopened⟩

theorem Sound.connect (h : d.Sound faultless) (opens : Bool) (flushed : Nat) (turn : Turn) :
    (d.connect opens flushed turn).1.Sound faultless := by
  rw [DriverSerialImpl.connect]
  by_cases hconnected : d.isConnected = true
  · simpa [hconnected] using h
  have hidle := h.idle (by simpa using hconnected)
  cases opens with
  | false =>
      rw [if_neg hconnected]
      exact ⟨none, hidle.1.congr ⟨rfl, rfl, rfl, hidle.2.symm, rfl, rfl, rfl⟩⟩
  | true =>
      rw [if_neg hconnected]
      simp only [Bool.not_true, Bool.false_eq_true, clearDTR, if_false, if_true]
      obtain ⟨hidle, -⟩ := hidle
      refine Sound.stopMotor (Sound.congr (Sound.checkMotorCtrlSupport ?_ turn)
        ⟨rfl, rfl, rfl, rfl, rfl, rfl, rfl⟩)
      exact ⟨none, hidle.proper, hidle.told, hidle.part, hidle.whole, hidle.scanning, hidle.thread,
        by simp, by simp⟩

theorem Sound.disconnect (h : d.Sound faultless) : d.disconnect.Sound faultless := by
  rw [DriverSerialImpl.disconnect]
  split
  · exact h
  · obtain ⟨g, h⟩ := h
    have hstop := h.stop
    exact ⟨none, hstop.proper, hstop.told, hstop.part, hstop.whole, hstop.scanning, hstop.thread,
      by simp, by simp [hstop.scanning]⟩

/-- **Step.**  Whatever is called, whatever comes, and whatever the thread does. -/
theorem Sound.call (h : d.Sound faultless) (call : Call) : (d.call call).1.Sound faultless := by
  cases call with
  | connect opens flushed turn => exact h.connect opens flushed turn
  | disconnect => exact h.disconnect
  | reset => exact h.reset
  | getHealth turn => exact h.getHealth turn
  | getDeviceInfo turn => exact h.getDeviceInfo turn
  | checkMotorCtrlSupport turn => exact h.checkMotorCtrlSupport turn
  | getSampleDuration info rate firmware rateInfo =>
      exact h.getSampleDuration info rate firmware rateInfo
  | checkExpressScanSupported turns => exact h.checkExpressScanSupported turns
  | startScanNormal force waits created => exact h.startScanNormal force waits created
  | startScanExpress fixedAngle waits created => exact h.startScanExpress fixedAngle waits created
  | startScan force autoExpressMode turns waits created =>
      exact h.startScan force autoExpressMode turns waits created
  | stop => exact h.stop
  | setMotorPWM pwm => exact h.setMotorPWM pwm
  | startMotor => exact h.startMotor
  | stopMotor => exact h.stopMotor
  | cachethreadReads n =>
      rw [DriverSerialImpl.call]
      split
      · exact h
      · exact h.congr ⟨rfl, rfl, rfl, rfl, rfl, rfl, rfl⟩
  | cachethreadFails =>
      rw [DriverSerialImpl.call]
      split
      · exact h
      · obtain ⟨g, h⟩ := h
        exact ⟨none, h.disableDataGrabbing⟩

end

end DriverSerialImpl

/-- **Scans.**  Whatever is called, in any order, whatever the scanner sends, whenever the
thread fails and whatever `write()` does: what has been issued are commands, and one that starts
a scan comes right behind a `STOP`.  While the driver is scanning, what its thread reads is what
the last such command has started, and since then the scanner has been told nothing but of its
motor, or to reset.  Of the bytes of the commands some are sent, and all if no `write()` fails. -/
theorem scans_as_told (dtr : Bool) (writes : List Nat) (incoming : List UInt8)
    (calls : List Call) :
    let d := serialDriver.final (.initial dtr writes incoming) calls
    (∀ c ∈ d.issued, c.Proper) ∧
      (∀ before c after, d.issued = before ++ c :: after → c.starts ≠ none →
        ∃ earlier, before = earlier ++ [.stop]) ∧
      (d.isScanning = true → d.isConnected = true ∧ d.opened = true ∧
        ∃ before start after t, d.issued = before ++ .stop :: start :: after ∧
          start.starts = some t ∧ (∀ t', d.cachethread = some t' → t' = t) ∧
          ∀ c ∈ after, c.Aside) ∧
      (d.isScanning = false → d.cachethread = none) ∧
      d.sent <+ d.issued.flatMap sendCommand ∧
      (writes = [] → d.sent = d.issued.flatMap sendCommand) := by
  intro d
  obtain ⟨g, h⟩ : d.Sound (writes = []) :=
    serialDriver.final_invariant (P := fun _ => True) (fun _ call _ h => h.call call) (by simp)
      ⟨none, DriverSerialImpl.initial_keeps dtr writes incoming⟩
  refine ⟨h.proper, fun before c after hcs hc => h.told.behind_stop hcs hc, ?_, ?_, h.part,
    fun hall => (h.whole hall).2⟩
  · intro hscanning
    have hopened := h.opened hscanning
    obtain ⟨t, rfl⟩ : ∃ t, g = some t := Option.isSome_iff_exists.mp (h.scanning ▸ hscanning)
    obtain ⟨before, start, after, hcs, hstart, hafter⟩ := h.told.since
    refine ⟨h.connected hopened, hopened, before, start, after, t, hcs, hstart, fun t' ht' => ?_,
      hafter⟩
    exact (Option.some.inj (h.thread t' ht')).symm
  · intro hscanning
    cases hthread : d.cachethread with
    | none => rfl
    | some t =>
        have hg := h.scanning
        rw [hscanning, h.thread t hthread] at hg
        simp at hg

end Rplidar

end Alex
