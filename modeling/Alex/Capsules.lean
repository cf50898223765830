/-
# `Alex.Capsules` — capsules, the records of an express scan

In express mode the scanner sends capsules of 84 bytes, which hold 32 measurements:

    s_checksum_1           A, the low half of the checksum
    s_checksum_2           5, the high half
    start_angle_sync_q6    15 bits of angle, and the mark of the first capsule
    cabins[16]             5 bytes, two measurements each

The angles between are known when the next capsule is there, so the driver keeps the last
one, and `_is_previous_capsuledataRdy` says whether it is the one before: the flag falls
when `_waitCapsuledNode` throws a byte away, when a checksum is wrong, when the time is
up, and at a first capsule.  It does not fall when a wait fails or times out, though the
bytes taken until then are lost.
-/
import Alex.Lidar
import Mathlib.Data.List.OfFn

namespace Alex

namespace Rplidar

open Cells Bytes Scanner

/-! ## Cabins -/

/-- `rplidar_response_cabin_nodes_t` -/
structure Cabin where
  distanceAngle1 : UInt16
  distanceAngle2 : UInt16
  offsetAnglesQ3 : UInt8
  deriving DecidableEq, Repr

/-- `sizeof(rplidar_response_cabin_nodes_t)` -/
def sizeofCabin : Nat := 5

namespace Cabin

def bytes (c : Cabin) : List UInt8 :=
  ofHalf c.distanceAngle1 ++ (ofHalf c.distanceAngle2 ++ [c.offsetAnglesQ3])

def ofMemory (f : Nat → UInt8) (off : Nat) : Cabin :=
  ⟨half f off, half f (off + 2), f (off + 4)⟩

@[simp] theorem length_bytes (c : Cabin) : c.bytes.length = sizeofCabin := rfl

theorem ofMemory_eq_iff {f : Nat → UInt8} {off : Nat} {c : Cabin} :
    ofMemory f off = c ↔ slice f off sizeofCabin = c.bytes := by
  obtain ⟨d₁, d₂, o⟩ := c
  have hslice : slice f off sizeofCabin =
      slice f off 2 ++ (slice f (off + 2) 2 ++ slice f (off + 4) 1) := rfl
  have hlen (i : Nat) (d : UInt16) : (slice f i 2).length = (ofHalf d).length := by
    rw [length_slice]
    rfl
  rw [hslice, bytes, ofMemory, Cabin.mk.injEq, half_eq_iff, half_eq_iff]
  constructor
  · rintro ⟨h₁, h₂, rfl⟩
    rw [h₁, h₂]
    rfl
  · intro h
    obtain ⟨h₁, h⟩ := List.append_inj h (hlen off d₁)
    obtain ⟨h₂, h⟩ := List.append_inj h (hlen (off + 2) d₂)
    exact ⟨h₁, h₂, by simpa [slice_succ] using h⟩

theorem bytes_injective : Function.Injective bytes := by
  intro c d h
  have hread (e : Cabin) : ofMemory (fun i => e.bytes.getD i 0) 0 = e := ofMemory_eq_iff.mpr rfl
  rw [← hread c, ← hread d, h]

theorem slice_cabins (f : Nat → UInt8) (off n : Nat) : slice f off (sizeofCabin * n) =
    (List.ofFn fun i : Fin n => ofMemory f (off + sizeofCabin * i)).flatMap bytes := by
  induction n with
  | zero => rfl
  | succ n ih =>
      have hlast : (ofMemory f (off + sizeofCabin * n)).bytes =
          slice f (off + sizeofCabin * n) sizeofCabin := (ofMemory_eq_iff.mp rfl).symm
      rw [Nat.mul_succ, slice_add, ih, List.ofFn_succ_last, List.flatMap_append, ← hlast]
      simp

end Cabin

/-! ## Capsules -/

/-- `rplidar_response_capsule_measurement_nodes_t` -/
structure Capsule where
  sChecksum1 : UInt8
  sChecksum2 : UInt8
  startAngleSyncQ6 : UInt16
  cabins : Fin 16 → Cabin

/-- `sizeof(rplidar_response_capsule_measurement_nodes_t)` -/
def sizeofCapsule : Nat := 84

namespace Capsule

/-- The bytes from `start_angle_sync_q6` on. -/
def body (c : Capsule) : List UInt8 :=
  ofHalf c.startAngleSyncQ6 ++ (List.ofFn c.cabins).flatMap Cabin.bytes

def bytes (c : Capsule) : List UInt8 := c.sChecksum1 :: c.sChecksum2 :: c.body

def ofMemory (f : Nat → UInt8) : Capsule where
  sChecksum1 := f 0
  sChecksum2 := f 1
  startAngleSyncQ6 := half f 2
  cabins i := .ofMemory f (4 + sizeofCabin * i)

def recvChecksum (c : Capsule) : UInt8 :=
  (c.sChecksum1 &&& (0xF : UInt8)) ||| (c.sChecksum2 <<< (4 : UInt8))

/-- `RPLIDAR_RESP_MEASUREMENT_EXP_SYNCBIT`: the first capsule frame in logic. -/
def first (c : Capsule) : Bool := c.startAngleSyncQ6 &&& 0x8000 ≠ 0

/-- Both sync nibbles are there, and the checksum matches. -/
structure Intact (c : Capsule) : Prop where
  sync₁ : c.sChecksum1 >>> 4 = 0xA
  sync₂ : c.sChecksum2 >>> 4 = 0x5
  checksum_eq : c.recvChecksum = checksum c.body

@[simp] theorem length_body (c : Capsule) : c.body.length = 82 := by
  simp [body, sizeofCabin, ofHalf]

@[simp] theorem length_bytes (c : Capsule) : c.bytes.length = sizeofCapsule := by
  simp [bytes, sizeofCapsule]

theorem bytes_ne_nil (c : Capsule) : c.bytes ≠ [] := List.cons_ne_nil _ _

theorem bytes_injective : Function.Injective bytes := by
  intro c d h
  obtain ⟨c₁, c₂, ca, ccab⟩ := c
  obtain ⟨d₁, d₂, da, dcab⟩ := d
  simp only [bytes, body, List.cons.injEq] at h
  obtain ⟨rfl, rfl, h⟩ := h
  obtain ⟨hangle, hcabins⟩ := List.append_inj h rfl
  have hfn : List.ofFn ccab = List.ofFn dcab :=
    flatMap_inj_of_length Cabin.length_bytes Cabin.bytes_injective (by simp) hcabins
  rw [ofHalf_inj.mp hangle, List.ofFn_injective hfn]

theorem bytes_ofMemory (f : Nat → UInt8) : (ofMemory f).bytes = slice f 0 sizeofCapsule := by
  have hangle : ofHalf (half f 2) = slice f 2 2 := (half_eq_iff.mp rfl).symm
  have hcabins := Cabin.slice_cabins f 4 16
  have hall : slice f 0 sizeofCapsule =
      f 0 :: f 1 :: (slice f 2 2 ++ slice f 4 (sizeofCabin * 16)) := rfl
  rw [hall, hcabins, ← hangle]
  rfl

theorem bytes_ofMemory_getD {r : List UInt8} (hr : r.length = sizeofCapsule) :
    (ofMemory fun i => r.getD i 0).bytes = r := by
  rw [bytes_ofMemory, ← hr, slice_eq_iff]
  intro i hi
  simp [hi]

theorem ofMemory_bytes (c : Capsule) : (ofMemory fun i => c.bytes.getD i 0) = c :=
  bytes_injective (bytes_ofMemory_getD c.length_bytes)

/-! ### One changed byte -/

theorem toNat_recvChecksum (c : Capsule) :
    c.recvChecksum.toNat = c.sChecksum1.toNat % 16 + 16 * (c.sChecksum2.toNat % 16) := by
  have hlow : c.sChecksum1.toNat &&& 15 = c.sChecksum1.toNat % 16 :=
    Nat.and_two_pow_sub_one_eq_mod _ 4
  have hhigh : c.sChecksum2.toNat <<< 4 % 256 = (c.sChecksum2.toNat % 16) <<< 4 := by
    simp only [Nat.shiftLeft_eq]
    omega
  have hor : c.recvChecksum.toNat =
      (c.sChecksum1.toNat % 16) ||| (c.sChecksum2.toNat % 16) <<< 4 := by
    rw [← hlow, ← hhigh]
    simp [recvChecksum]
  have hlt : c.sChecksum1.toNat % 16 < 2 ^ 4 := by omega
  rw [hor, Nat.or_comm, ← Nat.shiftLeft_add_eq_or_of_lt hlt, Nat.shiftLeft_eq]
  omega

theorem shiftRight_eq_iff {b : UInt8} {k : Nat} (hk : k < 16) :
    b >>> 4 = UInt8.ofNat k ↔ b.toNat / 16 = k := by
  rw [← UInt8.toNat_inj]
  simp [Nat.shiftRight_eq_div_pow]
  omega

/-- Of a capsule with one changed byte, the nibbles or the checksum are wrong. -/
theorem Intact.changed {c d : Capsule} (h : c.Intact) {i : Nat} {b : UInt8}
    (hi : i < c.bytes.length) (hb : c.bytes[i] ≠ b) (hd : d.bytes = c.bytes.set i b) :
    ¬ d.Intact := by
  intro hd'
  have hsync₁ := (shiftRight_eq_iff (by decide)).mp h.sync₁
  have hsync₂ := (shiftRight_eq_iff (by decide)).mp h.sync₂
  have hsync₁' := (shiftRight_eq_iff (by decide)).mp hd'.sync₁
  have hsync₂' := (shiftRight_eq_iff (by decide)).mp hd'.sync₂
  have hsum := congrArg UInt8.toNat h.checksum_eq
  have hsum' := congrArg UInt8.toNat hd'.checksum_eq
  rw [toNat_recvChecksum] at hsum hsum'
  rcases i with - | - | i
  · simp only [bytes, List.set_cons_zero, List.cons.injEq, List.getElem_cons_zero] at hd hb
    obtain ⟨rfl, hs₂, hbody⟩ := hd
    rw [hbody, hs₂] at hsum'
    exact hb (UInt8.toNat_inj.mp (by omega))
  · simp only [bytes, List.set_cons_succ, List.set_cons_zero, List.cons.injEq,
      List.getElem_cons_succ, List.getElem_cons_zero] at hd hb
    obtain ⟨hs₁, rfl, hbody⟩ := hd
    rw [hbody, hs₁] at hsum'
    exact hb (UInt8.toNat_inj.mp (by omega))
  · simp only [bytes, List.set_cons_succ, List.cons.injEq, List.getElem_cons_succ] at hd hb
    obtain ⟨hs₁, hs₂, hbody⟩ := hd
    have hlt : i < c.body.length := by
      rw [length_bytes, sizeofCapsule] at hi
      rw [length_body]
      omega
    refine checksum_set_ne hlt hb ?_
    rw [← hbody, ← hd'.checksum_eq, ← h.checksum_eq, recvChecksum, hs₁, hs₂]
    rfl

end Capsule

/-! ## Reading -/

/-- What `_waitCapsuledNode` lets pass: the sync nibbles. -/
def capsuleScanner : Scanner UInt8 where
  size := sizeofCapsule
  accepts i b :=
    match i with
    | 0 => b >>> 4 = 0xA
    | 1 => b >>> 4 = 0x5
    | _ => true

theorem isRecord_capsule_iff (c : Capsule) :
    capsuleScanner.IsRecord c.bytes ↔ c.sChecksum1 >>> 4 = 0xA ∧ c.sChecksum2 >>> 4 = 0x5 := by
  constructor
  · rintro ⟨-, h⟩
    have h₀ := h 0 (by simp [sizeofCapsule])
    have h₁ := h 1 (by simp [sizeofCapsule])
    exact ⟨by simpa [capsuleScanner, Capsule.bytes] using h₀,
      by simpa [capsuleScanner, Capsule.bytes] using h₁⟩
  · rintro ⟨h₁, h₂⟩
    refine ⟨c.length_bytes, fun i hi => ?_⟩
    rcases i with - | - | i
    · simpa [capsuleScanner, Capsule.bytes] using h₁
    · simpa [capsuleScanner, Capsule.bytes] using h₂
    · rfl

/-- A byte that has been taken was thrown away: the `continue` of the two cases. -/
def thrownAway (stream rest : List UInt8) : Bool :=
  capsuleScanner.rejects [] (stream.take (stream.length - rest.length))

/-- `_waitCapsuledNode(node, timeout)`: the capsule, `_is_previous_capsuledataRdy`, which was
`ready`, and the bytes that have not been taken. -/
def waitCapsuledNode (ready : Bool) (waits : List Wait) (stream : List UInt8) :
    Except UResult Capsule × Bool × List UInt8 :=
  match capsuleScanner.read [] stream waits with
  | .record r rest =>
      let ready := ready && !thrownAway stream rest
      let node := Capsule.ofMemory fun i => r.getD i 0
      if node.recvChecksum = checksum (r.drop 2) then
        -- the first capsule frame in logic, discard the previous cached data
        if node.first then (.ok node, false, rest) else (.ok node, ready, rest)
      else (.error .invalidData, false, rest)
  | .stopped (some e) _ rest => (.error (stopped e), ready && !thrownAway stream rest, rest)
  | .stopped none _ rest => (.error (stopped none), false, rest)

section
variable {ready ready' : Bool} {waits : List Wait} {stream rest : List UInt8} {c : Capsule}

theorem read_capsule {r : List UInt8}
    (h : capsuleScanner.read [] stream waits = .record r rest) :
    (Capsule.ofMemory fun i => r.getD i 0).bytes = r ∧ capsuleScanner.IsRecord r ∧
    ∃ skipped, stream = skipped ++ r ++ rest ∧ (thrownAway stream rest = false → skipped = []) := by
  have hscan := read_record h
  obtain ⟨hr, skipped, hskipped⟩ := scan_sound fits_nil hscan
  obtain ⟨taken, rfl, htaken⟩ := exists_taken hscan
  refine ⟨Capsule.bytes_ofMemory_getD hr.length_eq, hr, skipped, hskipped, fun hthrown => ?_⟩
  have htake : (taken ++ rest).take ((taken ++ rest).length - rest.length) = taken := by simp
  rw [thrownAway, htake] at hthrown
  have hall : taken = r := by simpa using append_eq_of_inr hthrown htaken
  have hlen := congrArg List.length hskipped
  simp [hall] at hlen
  exact hlen

/-- A capsule that is returned is intact, and lies in what has come; if the flag is up then,
it was up before, the capsule is not a first one, and nothing has been thrown away. -/
theorem waitCapsuledNode_ok (h : waitCapsuledNode ready waits stream = (.ok c, ready', rest)) :
    c.Intact ∧ ∃ skipped, stream = skipped ++ c.bytes ++ rest ∧
      (ready' = true → ready = true ∧ c.first = false ∧ skipped = []) := by
  rw [waitCapsuledNode] at h
  cases hread : capsuleScanner.read [] stream waits with
  | stopped e held rest' => cases e <;> simp [hread] at h
  | record r rest' =>
      obtain ⟨hbytes, hr, skipped, hskipped, hthrown⟩ := read_capsule hread
      simp only [hread] at h
      generalize Capsule.ofMemory (fun i => r.getD i 0) = node at h hbytes
      subst hbytes
      obtain ⟨hsync₁, hsync₂⟩ := (isRecord_capsule_iff node).mp hr
      split at h
      · rename_i hsum
        split at h
        · obtain ⟨rfl, rfl, rfl⟩ : node = c ∧ false = ready' ∧ rest' = rest := by
            simpa using h
          exact ⟨⟨hsync₁, hsync₂, hsum⟩, skipped, hskipped, by simp⟩
        · rename_i hfirst
          obtain ⟨rfl, rfl, rfl⟩ : node = c ∧ (ready && !thrownAway stream rest') = ready' ∧
              rest' = rest := by
            simpa using h
          refine ⟨⟨hsync₁, hsync₂, hsum⟩, skipped, hskipped, fun hready => ?_⟩
          rw [Bool.and_eq_true, Bool.not_eq_true'] at hready
          exact ⟨hready.1, by simpa using hfirst, hthrown hready.2⟩
      · simp at h

/-- What has been taken in vain is behind; if the flag is still up, it is the beginning of a
capsule, and a wait has failed or timed out. -/
theorem waitCapsuledNode_error {e : UResult}
    (h : waitCapsuledNode ready waits stream = (.error e, ready', rest)) :
    ∃ taken, stream = taken ++ rest ∧
      (ready' = true → ready = true ∧ taken.length < sizeofCapsule) ∧
      (e = .invalidData ∧ ready' = false ∧ sizeofCapsule ≤ taken.length ∨
        e = .operationTimeout ∨ e = .operationFail) := by
  rw [waitCapsuledNode] at h
  cases hread : capsuleScanner.read [] stream waits with
  | stopped e' held rest' =>
      obtain ⟨taken, htaken, hscan⟩ := read_stopped hread
      obtain ⟨-, hlt, -⟩ := scan_sound_inl fits_nil (show 0 < sizeofCapsule by decide) hscan
      rcases e' with - | e'
      · obtain ⟨rfl, rfl, rfl⟩ : stopped none = e ∧ false = ready' ∧ rest' = rest := by
          simpa [hread] using h
        exact ⟨taken, htaken, by simp, .inr (.inl rfl)⟩
      · obtain ⟨rfl, rfl, rfl⟩ : stopped (some e') = e ∧
            (ready && !thrownAway stream rest') = ready' ∧ rest' = rest := by
          simpa [hread] using h
        refine ⟨taken, htaken, fun hready => ?_, ?_⟩
        · rw [Bool.and_eq_true, Bool.not_eq_true'] at hready
          have htake : stream.take (stream.length - rest'.length) = taken := by simp [htaken]
          rw [thrownAway, htake] at hready
          rw [eq_append_of_inl hready.2 hscan] at hlt
          exact ⟨hready.1, hlt⟩
        · cases e' <;> simp [stopped]
  | record r rest' =>
      obtain ⟨-, hr, skipped, hskipped, -⟩ := read_capsule hread
      simp only [hread] at h
      split at h
      · split at h <;> simp at h
      · obtain ⟨rfl, rfl, rfl⟩ : UResult.invalidData = e ∧ false = ready' ∧ rest' = rest := by
          simpa using h
        refine ⟨skipped ++ r, hskipped, by simp, .inl ⟨rfl, rfl, ?_⟩⟩
        have hlen : r.length = sizeofCapsule := hr.length_eq
        rw [List.length_append, hlen]
        exact Nat.le_add_left ..

/-- Where an intact capsule is next it is returned, and the flag falls only if it is a first
one; or a wait has failed, or the time is up. -/
theorem waitCapsuledNode_of_capsule (hc : c.Intact) (ready : Bool) (waits : List Wait)
    (after : List UInt8) :
    let r := waitCapsuledNode ready waits (c.bytes ++ after)
    r = (.ok c, ready && !c.first, after) ∨ r.1 = .error .operationTimeout ∨
      r.1 = .error .operationFail := by
  intro r
  have hrecord := (isRecord_capsule_iff c).mpr ⟨hc.sync₁, hc.sync₂⟩
  cases hread : capsuleScanner.read [] (c.bytes ++ after) waits with
  | stopped e held rest =>
      refine .inr ?_
      rcases e with - | - | - <;> simp [r, waitCapsuledNode, hread, stopped]
  | record bytes rest =>
      refine .inl ?_
      have hscan : capsuleScanner.scan [] (c.bytes ++ after) = .inr (c.bytes, after) :=
        scan_record hrecord c.bytes_ne_nil after
      obtain ⟨rfl, rfl⟩ := Prod.mk.inj (Sum.inr.inj (hscan.symm.trans (read_record hread)))
      have htake : (c.bytes ++ after).take ((c.bytes ++ after).length - after.length) =
          c.bytes := by
        simp
      have hthrown : thrownAway (c.bytes ++ after) after = false := by
        rw [thrownAway, htake, rejects_eq_false_iff fits_nil]
        exact hrecord.fits
      have hsum : c.recvChecksum = checksum (c.bytes.drop 2) := hc.checksum_eq
      simp only [r, waitCapsuledNode, hread, hthrown, c.ofMemory_bytes, hsum, if_true]
      cases c.first <;> simp

/-- **One changed byte.**  Where the next 84 bytes are those of an intact capsule but for one,
`_waitCapsuledNode` does not return the capsule they make, and the flag is down when it
returns, unless a wait has failed or timed out before all of them have come. -/
theorem changed_capsule (hc : c.Intact) {i : Nat} {b : UInt8} (hi : i < c.bytes.length)
    (hb : c.bytes[i] ≠ b) (ready : Bool) (waits : List Wait) (after : List UInt8) :
    let r := waitCapsuledNode ready waits (c.bytes.set i b ++ after)
    (∀ d, r.1 = .ok d → d.bytes ≠ c.bytes.set i b ∧ r.2.2.length < after.length) ∧
      (r.2.1 = true → after.length < r.2.2.length ∧
        (r.1 = .error .operationTimeout ∨ r.1 = .error .operationFail)) := by
  intro r
  have hlen : (c.bytes.set i b).length = sizeofCapsule := by simp
  rcases hwait : r with ⟨result, ready', rest⟩
  cases result with
  | ok d =>
      obtain ⟨hd, skipped, hskipped, hready⟩ := waitCapsuledNode_ok hwait
      have hne : d.bytes ≠ c.bytes.set i b := fun heq => hc.changed hi hb heq hd
      have hsizes := congrArg List.length hskipped
      simp only [List.length_append, hlen, d.length_bytes] at hsizes
      have hpos : skipped ≠ [] := by
        rintro rfl
        rw [List.nil_append] at hskipped
        exact hne (List.append_inj_left hskipped (by simp)).symm
      have hskip := List.length_pos_iff.mpr hpos
      refine ⟨fun d' hd' => ?_, fun hup => absurd (hready hup).2.2 hpos⟩
      obtain rfl := Except.ok.inj hd'
      refine ⟨hne, ?_⟩
      show rest.length < after.length
      omega
  | error e =>
      obtain ⟨taken, htaken, hready, hresult⟩ := waitCapsuledNode_error hwait
      refine ⟨by simp, fun hup => ⟨?_, ?_⟩⟩
      · have hshort := (hready hup).2
        have hsizes := congrArg List.length htaken
        simp only [List.length_append, hlen] at hsizes
        show after.length < rest.length
        omega
      · rcases hresult with ⟨-, hdown, -⟩ | rfl | rfl
        · exact absurd hup (by simp [hdown])
        · exact .inl rfl
        · exact .inr rfl

end

def emptyCapsule (startAngleSyncQ6 : UInt16) : Capsule :=
  let sum := checksum (ofHalf startAngleSyncQ6)
  { sChecksum1 := (0xA0 : UInt8) ||| (sum &&& (0xF : UInt8))
    sChecksum2 := (0x50 : UInt8) ||| (sum >>> (4 : UInt8))
    startAngleSyncQ6 := startAngleSyncQ6
    cabins _ := ⟨0, 0, 0⟩ }

theorem changed_capsule_empty :
    let r := waitCapsuledNode true [.ok 50, .ok 34] ((emptyCapsule 6400).bytes.set 10 1 ++ [0xA0])
    (∀ d, r.1 = .ok d → d.bytes ≠ (emptyCapsule 6400).bytes.set 10 1 ∧ r.2.2.length < 1) ∧
      (r.2.1 = true → 1 < r.2.2.length ∧
        (r.1 = .error .operationTimeout ∨ r.1 = .error .operationFail)) :=
  changed_capsule (c := emptyCapsule 6400) ⟨by decide +kernel, by decide +kernel, by decide +kernel⟩
    (i := 10) (by decide +kernel) (by decide +kernel) true [.ok 50, .ok 34] [0xA0]

end Rplidar

end Alex
