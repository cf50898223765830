/-
# `Alex.Transactions` — requests to the scanner and its answers

A request is a command, and what answers it a header of 7 bytes with the data it announces:

    A5 cmd                                 A5 5A  size:30, subtype:2  type
    A5 cmd size payload… checksum          data…

`getHealth`, `getDeviceInfo`, `checkMotorCtrlSupport` and the second half of
`getSampleDuration_uS` are one `transaction`: they send the command, wait for a header, check
the type and that the data is not too short, wait for the data and take as much of it as they
have room for.  What is left of it lies before the next header.
-/
import Alex.Lidar

namespace Alex

namespace Rplidar

open Cells Bytes Scanner

/-! ## Commands -/

/-- A command and its payload, which may be empty. -/
structure Command where
  cmd : UInt8
  payload : List UInt8
  deriving DecidableEq, Repr

/-- `_sendCommand(cmd, payload, payloadsize)`: the bytes sent. -/
def sendCommand (c : Command) : List UInt8 :=
  let cmd := if c.payload ≠ [] then c.cmd ||| 0x80 else c.cmd
  let size : UInt8 := .ofNat c.payload.length
  [0xA5, cmd] ++
    if cmd &&& 0x80 ≠ 0 then
      let checksum := 0 ^^^ 0xA5 ^^^ cmd ^^^ size
      size :: (c.payload.take size.toNat ++ [c.payload.foldl (· ^^^ ·) checksum])
    else []

/-- What the driver passes: a payload that one byte can count, and the flag
`RPLIDAR_CMDFLAG_HAS_PAYLOAD` in the command exactly if there is one. -/
structure Command.Proper (c : Command) : Prop where
  short : c.payload.length < 256
  flag : c.cmd &&& 0x80 ≠ 0 ↔ c.payload ≠ []

/-! ## Answers -/

/-- `rplidar_ans_header_t` -/
structure AnsHeader where
  syncByte1 : UInt8
  syncByte2 : UInt8
  sizeQ30Subtype : UInt32
  type : UInt8
  deriving DecidableEq, Repr

namespace AnsHeader

def bytes (h : AnsHeader) : List UInt8 :=
  h.syncByte1 :: h.syncByte2 :: (ofWord h.sizeQ30Subtype ++ [h.type])

def ofMemory (f : Nat → UInt8) : AnsHeader := ⟨f 0, f 1, word f 2, f 6⟩

/-- `size_q30_subtype & RPLIDAR_ANS_HEADER_SIZE_MASK` -/
def size (h : AnsHeader) : Nat := (h.sizeQ30Subtype &&& 0x3FFFFFFF).toNat

@[simp] theorem length_bytes (h : AnsHeader) : h.bytes.length = 7 := rfl

theorem ofMemory_bytes (h : AnsHeader) : (ofMemory fun i => h.bytes.getD i 0) = h := by
  have hword : word (fun i => h.bytes.getD i 0) 2 = h.sizeQ30Subtype := word_of_slice rfl
  rw [ofMemory, hword]
  rfl

theorem bytes_ofMemory {r : List UInt8} (hr : r.length = 7) :
    (ofMemory fun i => r.getD i 0).bytes = r := by
  have hall : slice (fun i => r.getD i 0) 0 r.length = r := by
    rw [slice_eq_iff]
    intro i hi
    simp [hi]
  have hword : ofWord (word (fun i => r.getD i 0) 2) = slice (fun i => r.getD i 0) 2 4 :=
    (word_eq_iff.mp rfl).symm
  rw [hr] at hall
  rw [bytes, ofMemory, hword]
  exact hall

end AnsHeader

/-- What `_waitResponseHeader` lets pass: the sync bytes. -/
def headerScanner : Scanner UInt8 where
  size := 7
  accepts i b :=
    match i with
    | 0 => b = 0xA5
    | 1 => b = 0x5A
    | _ => true

/-- `_waitResponseHeader(header, timeout)`: the header, and the bytes that have not been taken. -/
def waitResponseHeader (waits : List Wait) (stream : List UInt8) :
    Except UResult AnsHeader × List UInt8 :=
  waitInto headerScanner .ofMemory waits stream

/-! ## Requests -/

/-- A request: the command, and the type and the size of what answers it. -/
structure Request where
  command : Command
  ansType : UInt8
  ansSize : Nat

/-- `getHealth`: `RPLIDAR_ANS_TYPE_DEVHEALTH`, `rplidar_response_device_health_t` -/
def getHealth : Request := ⟨⟨0x52, []⟩, 0x6, 3⟩

/-- `getDeviceInfo`: `RPLIDAR_ANS_TYPE_DEVINFO`, `rplidar_response_device_info_t` -/
def getDeviceInfo : Request := ⟨⟨0x50, []⟩, 0x4, 20⟩

/-- `getSampleDuration_uS`, after the device information:
`RPLIDAR_ANS_TYPE_SAMPLE_RATE`, `rplidar_response_sample_rate_t` -/
def getSampleDuration : Request := ⟨⟨0x59, []⟩, 0x15, 4⟩

/-- `checkMotorCtrlSupport`: `RPLIDAR_ANS_TYPE_ACC_BOARD_FLAG`,
`rplidar_response_acc_board_flag_t` -/
def checkMotorCtrlSupport : Request := ⟨⟨0xFF, [0, 0, 0, 0]⟩, 0xFF, 4⟩

/-- The waits of a transaction: those for the header, and the one for the data. -/
structure Turn where
  header : List Wait
  data : Wait

/-- A transaction: the answer, and the bytes that have not been taken. -/
def transaction (r : Request) (turn : Turn) (stream : List UInt8) :
    Except UResult (List UInt8) × List UInt8 :=
  match waitResponseHeader turn.header stream with
  | (.error ans, rest) => (.error ans, rest)
  | (.ok header, rest) =>
      if header.type ≠ r.ansType then (.error .invalidData, rest)
      else if header.size < r.ansSize then (.error .invalidData, rest)
      else
        match turn.data with
        | .error _ => (.error .operationTimeout, rest)
        | .ok _ =>
            -- the wait is for all that the header announces
            if rest.length < header.size then (.error .operationTimeout, rest)
            else (.ok (rest.take r.ansSize), rest.drop r.ansSize)

/-- One request after another: the bytes sent, the answers, and the bytes not taken. -/
def transactions (requests : List (Request × Turn)) (stream : List UInt8) :
    List UInt8 × List (Except UResult (List UInt8)) × List UInt8 :=
  match requests with
  | [] => ([], [], stream)
  | (r, turn) :: requests =>
      let (answer, rest) := transaction r turn stream
      let (sent, answers, rest) := transactions requests rest
      (sendCommand r.command ++ sent, answer :: answers, rest)

section
variable {waits : List Wait} {stream rest : List UInt8} {header : AnsHeader}

theorem isRecord_header_iff (h : AnsHeader) :
    headerScanner.IsRecord h.bytes ↔ h.syncByte1 = 0xA5 ∧ h.syncByte2 = 0x5A := by
  constructor
  · rintro ⟨-, hfits⟩
    have h₀ := hfits 0 (by simp)
    have h₁ := hfits 1 (by simp)
    exact ⟨by simpa [headerScanner, AnsHeader.bytes] using h₀,
      by simpa [headerScanner, AnsHeader.bytes] using h₁⟩
  · rintro ⟨h₁, h₂⟩
    refine ⟨rfl, fun i hi => ?_⟩
    rcases i with - | - | i
    · simpa [headerScanner, AnsHeader.bytes] using h₁
    · simpa [headerScanner, AnsHeader.bytes] using h₂
    · rfl

/-- A header that is returned lies in what has come. -/
theorem waitResponseHeader_sound (h : waitResponseHeader waits stream = (.ok header, rest)) :
    ∃ skipped, stream = skipped ++ header.bytes ++ rest := by
  obtain ⟨r, hwait, rfl⟩ := waitInto_ok h
  obtain ⟨hr, hskipped⟩ := waitRecord_sound hwait
  rwa [← AnsHeader.bytes_ofMemory hr.length_eq] at hskipped

/-- As long as something comes at every wait, a header that is next is returned, behind bytes
that cannot begin one. -/
theorem waitResponseHeader_next (h₁ : header.syncByte1 = 0xA5) (h₂ : header.syncByte2 = 0x5A)
    {junk : List UInt8} (hjunk : ∀ b ∈ junk, b ≠ 0xA5)
    (hwaits : ∀ w ∈ waits, ∃ n, w = .ok n ∧ 0 < n)
    (hlen : (junk ++ header.bytes ++ rest).length ≤ waits.length) :
    waitResponseHeader waits (junk ++ header.bytes ++ rest) = (.ok header, rest) := by
  have hnext := waitRecord_next ((isRecord_header_iff header).mpr ⟨h₁, h₂⟩) (by decide)
    (fun b hb => by simpa [headerScanner] using hjunk b hb) hwaits hlen
  rw [waitResponseHeader, waitInto_of_ok hnext, header.ofMemory_bytes]

end

/-! ## What is answered -/

section
variable {r : Request} {turn : Turn} {stream rest : List UInt8}

/-- An answer lies behind a header of its type that announces as much. -/
def Answers (r : Request) (answer : List UInt8) (stream rest : List UInt8) : Prop :=
  ∃ skipped header, header.type = r.ansType ∧ r.ansSize ≤ header.size ∧
    answer.length = r.ansSize ∧ stream = skipped ++ AnsHeader.bytes header ++ answer ++ rest

theorem transaction_sound (r : Request) (turn : Turn) (stream : List UInt8) :
    let result := transaction r turn stream
    (∃ skipped, stream = skipped ++ result.2) ∧
      ∀ answer, result.1 = .ok answer → Answers r answer stream result.2 := by
  rcases hwait : waitResponseHeader turn.header stream with ⟨ans | header, rest⟩
  · obtain ⟨-, skipped, hskipped⟩ := waitRecord_error (waitInto_error hwait)
    simp only [transaction, hwait]
    exact ⟨⟨skipped, hskipped⟩, by simp⟩
  · obtain ⟨skipped, hskipped⟩ := waitResponseHeader_sound hwait
    simp only [transaction, hwait]
    split
    · exact ⟨⟨_, hskipped⟩, by simp⟩
    · rename_i htype
      split
      · exact ⟨⟨_, hskipped⟩, by simp⟩
      · rename_i hsize
        cases turn.data with
        | error e => exact ⟨⟨_, hskipped⟩, by simp⟩
        | ok n =>
            simp only
            split
            · exact ⟨⟨_, hskipped⟩, by simp⟩
            rename_i hcome
            have hall : stream =
                skipped ++ header.bytes ++ rest.take r.ansSize ++ rest.drop r.ansSize := by
              rw [List.append_assoc, List.take_append_drop]
              exact hskipped
            refine ⟨⟨_, hall⟩, fun answer hanswer => ?_⟩
            obtain rfl := Except.ok.inj hanswer
            exact ⟨skipped, header, by simpa using htype, by omega,
              List.length_take_of_le (by omega), hall⟩

theorem transaction_isFail {ans : UResult} (h : (transaction r turn stream).1 = .error ans) :
    ans.isFail = true := by
  rcases hwait : waitResponseHeader turn.header stream with ⟨ans' | header, rest⟩
  · rw [transaction, hwait] at h
    obtain rfl := Except.error.inj h
    exact isFail_waitRecord (waitInto_error hwait)
  · simp only [transaction, hwait] at h
    split at h
    · obtain rfl := Except.error.inj h
      rfl
    split at h
    · obtain rfl := Except.error.inj h
      rfl
    · cases hdata : turn.data with
      | ok n =>
          simp only [hdata] at h
          split at h
          · obtain rfl := Except.error.inj h
            rfl
          · simp at h
      | error e =>
          obtain rfl : UResult.operationTimeout = ans := by simpa [hdata] using h
          rfl

/-- One request after another: the answers lie in what has been taken, in order, and none in
another. -/
inductive Answered : List Request → List (Except UResult (List UInt8)) → List UInt8 →
    List UInt8 → Prop
  | nil (stream : List UInt8) : Answered [] [] stream stream
  | failed {rs : List Request} {answers : List (Except UResult (List UInt8))}
      {stream rest : List UInt8} (r : Request) (ans : UResult) (skipped : List UInt8) :
      Answered rs answers stream rest →
      Answered (r :: rs) (.error ans :: answers) (skipped ++ stream) rest
  | answered {rs : List Request} {answers : List (Except UResult (List UInt8))}
      {whole stream rest : List UInt8} (r : Request) (answer : List UInt8) :
      Answers r answer whole stream → Answered rs answers stream rest →
      Answered (r :: rs) (.ok answer :: answers) whole rest

/-- **Step and run.**  Whatever comes and in whatever pieces, whatever fails. -/
theorem transactions_sound (requests : List (Request × Turn)) (stream : List UInt8) :
    let result := transactions requests stream
    result.1 = requests.flatMap (fun e => sendCommand e.1.command) ∧
      Answered (requests.map Prod.fst) result.2.1 stream result.2.2 := by
  induction requests generalizing stream with
  | nil => exact ⟨rfl, .nil stream⟩
  | cons e requests ih =>
      obtain ⟨r, turn⟩ := e
      obtain ⟨⟨skipped, hskipped⟩, hsound⟩ := transaction_sound r turn stream
      rcases hone : transaction r turn stream with ⟨answer, rest⟩
      rw [hone] at hskipped hsound
      obtain ⟨hsent, hanswered⟩ := ih rest
      simp only [transactions, hone]
      refine ⟨by rw [hsent, List.flatMap_cons], ?_⟩
      cases answer with
      | error ans =>
          rw [hskipped]
          exact .failed r ans skipped hanswered
      | ok answer => exact .answered r answer (hsound answer rfl) hanswered

/-! ## Where the scanner answers -/

/-- What the scanner sends for a request: perhaps something else, then the header and data. -/
structure Reply where
  junk : List UInt8
  sizeQ30Subtype : UInt32
  data : List UInt8

namespace Reply

def header (p : Reply) (r : Request) : AnsHeader := ⟨0xA5, 0x5A, p.sizeQ30Subtype, r.ansType⟩

def bytes (p : Reply) (r : Request) : List UInt8 := p.junk ++ (p.header r).bytes ++ p.data

/-- The data is what the header announces and enough, and no header seems to begin before the
header or in what is left of the data. -/
structure Fits (p : Reply) (r : Request) : Prop where
  junk : ∀ b ∈ p.junk, b ≠ 0xA5
  size : p.data.length = (p.header r).size
  enough : r.ansSize ≤ p.data.length
  extra : ∀ b ∈ p.data.drop r.ansSize, b ≠ 0xA5

end Reply

/-- Something comes at every wait, until all has come. -/
structure Turn.Comes (turn : Turn) (stream : List UInt8) : Prop where
  header : ∀ w ∈ turn.header, ∃ n, w = .ok n ∧ 0 < n
  long : stream.length ≤ turn.header.length
  data : ∃ n, turn.data = .ok n

/-- The answer is taken, and what is left of the data lies before what comes next. -/
theorem transaction_reply {p : Reply} {left : List UInt8} (hleft : ∀ b ∈ left, b ≠ 0xA5)
    (hp : p.Fits r) (hturn : turn.Comes (left ++ p.bytes r ++ rest)) :
    transaction r turn (left ++ p.bytes r ++ rest) =
      (.ok (p.data.take r.ansSize), p.data.drop r.ansSize ++ rest) := by
  have hstream : left ++ p.bytes r ++ rest =
      left ++ p.junk ++ (p.header r).bytes ++ (p.data ++ rest) := by
    simp [Reply.bytes]
  have hjunk : ∀ b ∈ left ++ p.junk, b ≠ 0xA5 := by
    intro b hb
    rcases List.mem_append.mp hb with hb | hb
    · exact hleft b hb
    · exact hp.junk b hb
  obtain ⟨n, hn⟩ := hturn.data
  have hlong := hturn.long
  rw [hstream] at hlong ⊢
  have hheader : waitResponseHeader turn.header
      (left ++ p.junk ++ (p.header r).bytes ++ (p.data ++ rest)) =
        (.ok (p.header r), p.data ++ rest) :=
    waitResponseHeader_next rfl rfl hjunk hturn.header hlong
  have hsize : ¬ (p.header r).size < r.ansSize := by
    rw [← hp.size]
    exact Nat.not_lt.mpr hp.enough
  have htype : ¬ (p.header r).type ≠ r.ansType := fun h => h rfl
  have hcome : ¬ (p.data ++ rest).length < (p.header r).size := by
    rw [List.length_append, hp.size]
    omega
  simp only [transaction, hheader, htype, hsize, hn, hcome, if_false]
  rw [List.take_append_of_le_length hp.enough, List.drop_append_of_le_length hp.enough]

end

theorem Turn.Comes.mono {turn : Turn} {stream stream' : List UInt8} (h : turn.Comes stream)
    (hle : stream'.length ≤ stream.length) : turn.Comes stream' :=
  ⟨h.header, Nat.le_trans hle h.long, h.data⟩

/-- **Step and run.**  The scanner replies to each request. -/
theorem transactions_replies (exchanges : List (Request × Turn × Reply)) {left : List UInt8}
    (rest : List UInt8) (hleft : ∀ b ∈ left, b ≠ 0xA5)
    (hall : ∀ e ∈ exchanges, e.2.2.Fits e.1 ∧
      e.2.1.Comes (left ++ exchanges.flatMap (fun e => e.2.2.bytes e.1) ++ rest)) :
    let result := transactions (exchanges.map fun e => (e.1, e.2.1))
      (left ++ exchanges.flatMap (fun e => e.2.2.bytes e.1) ++ rest)
    result.2.1 = exchanges.map (fun e => .ok (e.2.2.data.take e.1.ansSize)) ∧
      ∃ left', result.2.2 = left' ++ rest ∧ ∀ b ∈ left', b ≠ 0xA5 := by
  induction exchanges generalizing left with
  | nil => exact ⟨rfl, left, by simp [transactions], hleft⟩
  | cons e exchanges ih =>
      obtain ⟨r, turn, p⟩ := e
      obtain ⟨⟨hfits, hcomes⟩, hmore⟩ := List.forall_mem_cons.mp hall
      have hstream : left ++ ((r, turn, p) :: exchanges).flatMap (fun e => e.2.2.bytes e.1) ++
          rest = left ++ p.bytes r ++ (exchanges.flatMap (fun e => e.2.2.bytes e.1) ++ rest) := by
        simp
      rw [hstream] at hcomes
      have hone := transaction_reply hleft hfits hcomes
      obtain ⟨hanswers, left', hrest, hleft'⟩ := ih hfits.extra fun e he => by
        obtain ⟨hfits', hcomes'⟩ := hmore e he
        refine ⟨hfits', hcomes'.mono ?_⟩
        rw [hstream]
        simp [Reply.bytes]
        omega
      rw [List.append_assoc] at hanswers hrest
      simp only [List.map_cons, hstream, transactions, hone]
      exact ⟨by rw [hanswers], left', hrest, hleft'⟩

/-- **Answers.**  Whatever comes: what the requests send are the commands, and every answer
lies behind a header of its type that announces as much, in order.  And if the scanner replies
to each and something comes at every wait, every request has its answer. -/
theorem answers_received (requests : List (Request × Turn)) (stream : List UInt8) :
    let result := transactions requests stream
    result.1 = requests.flatMap (fun e => sendCommand e.1.command) ∧
      Answered (requests.map Prod.fst) result.2.1 stream result.2.2 ∧
      ∀ (exchanges : List (Request × Turn × Reply)) (rest : List UInt8),
        requests = exchanges.map (fun e => (e.1, e.2.1)) →
        stream = exchanges.flatMap (fun e => e.2.2.bytes e.1) ++ rest →
        (∀ e ∈ exchanges, e.2.2.Fits e.1 ∧ e.2.1.Comes stream) →
        result.2.1 = exchanges.map (fun e => .ok (e.2.2.data.take e.1.ansSize)) := by
  intro result
  obtain ⟨hsent, hanswered⟩ := transactions_sound requests stream
  refine ⟨hsent, hanswered, fun exchanges rest hrequests hstream hall => ?_⟩
  subst hrequests hstream
  have hnone : ∀ b ∈ ([] : List UInt8), b ≠ 0xA5 := by simp
  exact (transactions_replies exchanges rest hnone hall).1

/-! ## What is sent -/

theorem or_flag_eq {b : UInt8} (h : b &&& 0x80 ≠ 0) : b ||| 0x80 = b := by
  have hall : ∀ n : Fin 256, UInt8.ofNat n &&& 0x80 ≠ 0 →
      UInt8.ofNat n ||| 0x80 = UInt8.ofNat n := by decide +kernel
  have hb : UInt8.ofNat b.toNat = b := UInt8.ofNat_toNat
  rw [← hb] at h ⊢
  exact hall ⟨b.toNat, b.toNat_lt⟩ h

theorem sendCommand_eq {c : Command} (hc : c.Proper) :
    c.payload = [] ∧ c.cmd &&& 0x80 = 0 ∧ sendCommand c = [0xA5, c.cmd] ∨
    c.cmd &&& 0x80 ≠ 0 ∧ sendCommand c =
      0xA5 :: c.cmd :: .ofNat c.payload.length ::
        (c.payload ++ [checksum (0xA5 :: c.cmd :: .ofNat c.payload.length :: c.payload)]) := by
  by_cases hpayload : c.payload = []
  · have hflag : c.cmd &&& 0x80 = 0 := by
      by_contra hne
      exact hc.flag.mp hne hpayload
    exact .inl ⟨hpayload, hflag, by simp [sendCommand, hpayload, hflag]⟩
  · have hflag := hc.flag.mpr hpayload
    have hcmd := or_flag_eq hflag
    have hsize : (UInt8.ofNat c.payload.length).toNat = c.payload.length := by
      rw [UInt8.toNat_ofNat']
      exact Nat.mod_eq_of_lt hc.short
    refine .inr ⟨hflag, ?_⟩
    simp only [sendCommand, hpayload, hcmd, hflag, hsize, ne_eq, not_false_iff, if_true,
      List.take_length]
    rfl

theorem requests_proper :
    ∀ r ∈ [getHealth, getDeviceInfo, getSampleDuration, checkMotorCtrlSupport],
      r.command.Proper := by
  intro r hr
  simp only [List.mem_cons, List.not_mem_nil, or_false] at hr
  rcases hr with rfl | rfl | rfl | rfl <;> exact ⟨by decide, by decide⟩

/-- Where one command ends the next begins. -/
theorem sendCommand_append_inj {c d : Command} (hc : c.Proper) (hd : d.Proper)
    {xs ys : List UInt8} (h : sendCommand c ++ xs = sendCommand d ++ ys) : c = d ∧ xs = ys := by
  obtain ⟨ccmd, cpayload⟩ := c
  obtain ⟨dcmd, dpayload⟩ := d
  rcases sendCommand_eq hc with ⟨rfl, hcflag, hceq⟩ | ⟨hcflag, hceq⟩
  · rcases sendCommand_eq hd with ⟨rfl, hdflag, hdeq⟩ | ⟨hdflag, hdeq⟩
    · rw [hceq, hdeq] at h
      simp at h
      exact ⟨by rw [h.1], h.2⟩
    · rw [hceq, hdeq] at h
      simp at h
      rw [h.1] at hcflag
      exact absurd hcflag hdflag
  · rcases sendCommand_eq hd with ⟨rfl, hdflag, hdeq⟩ | ⟨hdflag, hdeq⟩
    · rw [hceq, hdeq] at h
      simp at h
      rw [h.1] at hcflag
      exact absurd hdflag hcflag
    · rw [hceq, hdeq] at h
      simp only [List.cons_append, List.cons.injEq, true_and, List.append_assoc] at h
      obtain ⟨rfl, hsize, hrest⟩ := h
      have hlen : cpayload.length = dpayload.length := by
        have hnat := congrArg UInt8.toNat hsize
        have hcshort : cpayload.length < 256 := hc.short
        have hdshort : dpayload.length < 256 := hd.short
        simp only [UInt8.toNat_ofNat'] at hnat
        omega
      obtain ⟨rfl, hend⟩ := List.append_inj hrest hlen
      simp at hend
      exact ⟨rfl, hend⟩

/-- **Commands.**  One written after another, they tell which they are; and the bytes of one
with a payload have no sum. -/
theorem commands_told_apart :
    (∀ cs ds : List Command, (∀ c ∈ cs, c.Proper) → (∀ d ∈ ds, d.Proper) →
      cs.flatMap sendCommand = ds.flatMap sendCommand → cs = ds) ∧
    ∀ c : Command, c.Proper → c.payload ≠ [] → checksum (sendCommand c) = 0 := by
  refine ⟨fun cs => ?_, fun c hc hpayload => ?_⟩
  · induction cs with
    | nil =>
        intro ds _ _ h
        cases ds with
        | nil => rfl
        | cons d ds => simp [sendCommand] at h
    | cons c cs ih =>
        intro ds hcs hds h
        obtain ⟨hc, hcs⟩ := List.forall_mem_cons.mp hcs
        cases ds with
        | nil => simp [sendCommand] at h
        | cons d ds =>
            obtain ⟨hd, hlater⟩ := List.forall_mem_cons.mp hds
            rw [List.flatMap_cons, List.flatMap_cons] at h
            obtain ⟨rfl, hmore⟩ := sendCommand_append_inj hc hd h
            rw [ih ds hcs hlater hmore]
  · rcases sendCommand_eq hc with ⟨hnil, -, -⟩ | ⟨-, heq⟩
    · exact absurd hnil hpayload
    · rw [heq, ← List.cons_append, ← List.cons_append, ← List.cons_append, checksum_concat]
      exact UInt8.xor_self

end Rplidar

end Alex
