import Embassy.Lib.Bytes
import Embassy.Lib.Run
import Mathlib.Tactic.IntervalCases

/-!
# Control requests of the USB serial class

`embassy-extras/src/usb/cdc_acm.rs`, below `UsbSerial`: the line coding and the control lines,
which the host sets by class requests. The endpoints are in `UsbSerial`, the descriptors and
the transfers themselves outside of the model; what becomes of a request is a `Response`.

Main results:

* `LineCoding.encode_decode` — of seven bytes that are set, what is not a valid number of
  stop bits or parity becomes zero, and nothing else changes.
* `control_read_back` — what the host reads back is what it has set last since the last
  reset, after any requests to this interface and to others.
-/

namespace Embassy.Extras

open Embassy.Lib

-- ---------------------------------------------------------------------------
-- Line coding
-- ---------------------------------------------------------------------------

/-- Number of stop bits for LineCoding -/
inductive StopBits where
  | one
  | onePointFive
  | two
  deriving DecidableEq, Repr

/-- Parity for LineCoding -/
inductive ParityType where
  | none
  | odd
  | event
  | mark
  | space
  deriving DecidableEq, Repr

namespace StopBits

/-- `self as u8` -/
def toU8 : StopBits → UInt8
  | one => 0
  | onePointFive => 1
  | two => 2

/-- `mem::transmute` of a byte up to 2. -/
def transmute : UInt8 → StopBits
  | 0 => one
  | 1 => onePointFive
  | _ => two

/-- `From<u8>` -/
def ofU8 (value : UInt8) : StopBits := if value ≤ 2 then transmute value else one

/-- Stop bits that are not known are taken for one. -/
theorem toU8_ofU8 (value : UInt8) : (ofU8 value).toU8 = if value ≤ 2 then value else 0 := by
  rw [ofU8]
  split
  case isTrue h =>
    have hLe : value.toNat ≤ 2 := UInt8.le_iff_toNat_le.mp h
    have hEq : value = UInt8.ofNat value.toNat := UInt8.ofNat_toNat.symm
    rw [hEq]
    interval_cases value.toNat <;> rfl
  case isFalse => rfl

end StopBits

namespace ParityType

/-- `self as u8` -/
def toU8 : ParityType → UInt8
  | none => 0
  | odd => 1
  | event => 2
  | mark => 3
  | space => 4

/-- `mem::transmute` of a byte up to 4. -/
def transmute : UInt8 → ParityType
  | 0 => none
  | 1 => odd
  | 2 => event
  | 3 => mark
  | _ => space

/-- `From<u8>` -/
def ofU8 (value : UInt8) : ParityType := if value ≤ 4 then transmute value else none

/-- A parity that is not known is taken for none. -/
theorem toU8_ofU8 (value : UInt8) : (ofU8 value).toU8 = if value ≤ 4 then value else 0 := by
  rw [ofU8]
  split
  case isTrue h =>
    have hLe : value.toNat ≤ 4 := UInt8.le_iff_toNat_le.mp h
    have hEq : value = UInt8.ofNat value.toNat := UInt8.ofNat_toNat.symm
    rw [hEq]
    interval_cases value.toNat <;> rfl
  case isFalse => rfl

end ParityType

/-- `u32::to_le_bytes` -/
def toLeBytes (x : UInt32) : List UInt8 :=
  (List.range 4).map fun k => UInt8.ofNat (byteAt x.toNat k)

/-- `u32::from_le_bytes` of the first four bytes. -/
def fromLeBytes (data : List UInt8) : UInt32 :=
  UInt32.ofNat (littleEndian (fun k => data.getD k 0) 4)

/-- The first four bytes come back, with zeros for those that are missing. -/
theorem toLeBytes_fromLeBytes (data : List UInt8) :
    toLeBytes (fromLeBytes data) = (List.range 4).map fun k => data.getD k 0 := by
  have hLt : littleEndian (fun k => data.getD k 0) 4 < 2 ^ 32 := littleEndian_lt _ 4
  refine List.map_congr_left fun k hk => ?_
  rw [fromLeBytes, UInt32.toNat_ofNat_of_lt' hLt, littleEndian_byte (List.mem_range.mp hk),
    UInt8.ofNat_toNat]

/-- Line coding parameters -/
structure LineCoding where
  stopBits : StopBits
  dataBits : UInt8
  parityType : ParityType
  dataRate : UInt32
  deriving DecidableEq, Repr

namespace LineCoding

/-- `LineCoding::default()`, and what `CdcAcmClass::new` starts with. -/
def default : LineCoding where
  stopBits := .one
  dataBits := 8
  parityType := .none
  dataRate := 8000

/-- The bytes that `control_in` writes. -/
def encode (c : LineCoding) : List UInt8 :=
  toLeBytes c.dataRate ++ [c.stopBits.toU8, c.parityType.toU8, c.dataBits]

/-- What `control_out` reads from at least seven bytes. -/
def decode (data : List UInt8) : LineCoding where
  dataRate := fromLeBytes data
  stopBits := .ofU8 (data.getD 4 0)
  parityType := .ofU8 (data.getD 5 0)
  dataBits := data.getD 6 0

end LineCoding

/-- The first seven bytes of `data`, with zero for what is not a number of stop bits or a
parity. -/
def normal (data : List UInt8) : List UInt8 :=
  let byte := fun k => data.getD k 0
  [byte 0, byte 1, byte 2, byte 3, if byte 4 ≤ 2 then byte 4 else 0,
    if byte 5 ≤ 4 then byte 5 else 0, byte 6]

namespace LineCoding

@[simp] theorem decode_normal (data : List UInt8) : decode (normal data) = decode data := by
  have hRate : fromLeBytes (normal data) = fromLeBytes data := rfl
  have hStop : StopBits.ofU8 (if data.getD 4 0 ≤ 2 then data.getD 4 0 else 0) =
      .ofU8 (data.getD 4 0) := by
    rw [StopBits.ofU8, StopBits.ofU8]
    split_ifs <;> rfl
  have hParity : ParityType.ofU8 (if data.getD 5 0 ≤ 4 then data.getD 5 0 else 0) =
      .ofU8 (data.getD 5 0) := by
    rw [ParityType.ofU8, ParityType.ofU8]
    split_ifs <;> rfl
  rw [decode, decode, hRate, ← hStop, ← hParity]
  rfl

/-- Of what is set, all is read back but a number of stop bits or a parity that there is not. -/
theorem encode_decode (data : List UInt8) : (decode data).encode = normal data := by
  rw [encode, decode, toLeBytes_fromLeBytes, StopBits.toU8_ofU8, ParityType.toU8_ofU8]
  rfl

end LineCoding

-- ---------------------------------------------------------------------------
-- Requests
-- ---------------------------------------------------------------------------

/-- `control::RequestType` -/
inductive RequestType where
  | standard
  | ofClass
  | vendor
  | reserved
  deriving DecidableEq, Repr

/-- `control::Recipient` -/
inductive Recipient where
  | device
  | interface
  | endpoint
  | other
  | reserved
  deriving DecidableEq, Repr

/-- `control::Request` -/
structure Request where
  requestType : RequestType
  recipient : Recipient
  request : UInt8
  value : UInt16
  index : UInt16
  length : UInt16
  deriving DecidableEq, Repr

/-- What the class does with a transfer. -/
inductive Response where
  /-- It is left to the other classes. -/
  | ignored
  /-- With the bytes that are sent, for a request of the host to read. -/
  | accepted (data : List UInt8)
  | rejected
  deriving DecidableEq, Repr

def reqSendEncapsulatedCommand : UInt8 := 0x00

def reqSetLineCoding : UInt8 := 0x20

def reqGetLineCoding : UInt8 := 0x21

def reqSetControlLineState : UInt8 := 0x22

/-- A class request to the interface `commIf`. -/
def Request.To (req : Request) (commIf : UInt8) : Prop :=
  req.requestType = .ofClass ∧ req.recipient = .interface ∧ req.index = commIf.toUInt16

instance (req : Request) (commIf : UInt8) : Decidable (req.To commIf) :=
  inferInstanceAs (Decidable (_ ∧ _))

structure CdcAcmClass where
  commIf : UInt8
  lineCoding : LineCoding
  dtr : Bool
  rts : Bool
  deriving DecidableEq, Repr

/-- A call by the USB device. -/
inductive ControlAction where
  | reset
  | controlIn (req : Request)
  | controlOut (req : Request) (data : List UInt8)
  deriving DecidableEq, Repr

namespace CdcAcmClass

def new (commIf : UInt8) : CdcAcmClass where
  commIf := commIf
  lineCoding := .default
  dtr := false
  rts := false

def reset (s : CdcAcmClass) : CdcAcmClass :=
  { s with lineCoding := .default, dtr := false, rts := false }

def controlIn (s : CdcAcmClass) (req : Request) : Response :=
  if ¬req.To s.commIf then .ignored
  else if req.request = reqGetLineCoding ∧ req.length = 7 then .accepted s.lineCoding.encode
  else .rejected

def controlOut (s : CdcAcmClass) (req : Request) (data : List UInt8) : CdcAcmClass × Response :=
  if ¬req.To s.commIf then (s, .ignored)
  -- encapsulated commands are not supported
  else if req.request = reqSendEncapsulatedCommand then (s, .accepted [])
  else if req.request = reqSetLineCoding ∧ 7 ≤ data.length then
    ({ s with lineCoding := .decode data }, .accepted [])
  else if req.request = reqSetControlLineState then
    ({ s with
      dtr := decide (req.value &&& 0x0001 ≠ 0)
      rts := decide (req.value &&& 0x0002 ≠ 0) }, .accepted [])
  else (s, .rejected)

def step (s : CdcAcmClass) : ControlAction → CdcAcmClass
  | .reset => s.reset
  | .controlIn _ => s
  | .controlOut req data => (s.controlOut req data).1

/-- The class after these calls. -/
def after (commIf : UInt8) (calls : List ControlAction) : CdcAcmClass :=
  calls.foldl step (new commIf)

-- ---------------------------------------------------------------------------
-- What the host has set
-- ---------------------------------------------------------------------------

/-- The line coding that a call sets, in bytes. -/
def codingSet (commIf : UInt8) : ControlAction → Option (List UInt8)
  | .reset => some [0x40, 0x1f, 0, 0, 0, 0, 8]
  | .controlIn _ => none
  | .controlOut req data =>
    if req.To commIf ∧ req.request = reqSetLineCoding ∧ 7 ≤ data.length then some (normal data)
    else none

/-- The control line that a call sets, of which the bit is `mask`. -/
def lineSet (commIf : UInt8) (mask : UInt16) : ControlAction → Option Bool
  | .reset => some false
  | .controlIn _ => none
  | .controlOut req _ =>
    if req.To commIf ∧ req.request = reqSetControlLineState then
      some (decide (req.value &&& mask ≠ 0))
    else none

/-- A request does not change the interface. -/
theorem step_commIf (s : CdcAcmClass) (a : ControlAction) : (s.step a).commIf = s.commIf := by
  cases a with
  | reset | controlIn => rfl
  | controlOut req data =>
    rw [step, controlOut]
    split_ifs <;> rfl

theorem after_commIf (commIf : UInt8) (calls : List ControlAction) :
    (after commIf calls).commIf = commIf :=
  List.foldlRecOn calls step (motive := fun s => s.commIf = commIf) rfl
    fun s hIf a _ => (step_commIf s a).trans hIf

variable {commIf : UInt8} {s : CdcAcmClass}

/-- A request sets the line coding or leaves it. -/
theorem step_lineCoding (hIf : s.commIf = commIf) (a : ControlAction) : (s.step a).lineCoding =
    ((codingSet commIf a).map LineCoding.decode).getD s.lineCoding := by
  cases a with
  | reset | controlIn => rfl
  | controlOut req data =>
    by_cases hSet : req.To commIf ∧ req.request = reqSetLineCoding ∧ 7 ≤ data.length
    · obtain ⟨hTo, hCoding⟩ := hSet
      have hEncapsulated : req.request ≠ reqSendEncapsulatedCommand := by
        rw [hCoding.1]
        decide
      rw [step, controlOut, hIf, if_neg (not_not.mpr hTo), if_neg hEncapsulated, if_pos hCoding,
        codingSet, if_pos ⟨hTo, hCoding⟩]
      exact (LineCoding.decode_normal data).symm
    · have hNone : codingSet commIf (.controlOut req data) = none := if_neg hSet
      rw [hNone, step, controlOut, hIf]
      split_ifs with hTo _ hCoding
      · rfl
      · exact absurd ⟨hTo, hCoding⟩ hSet
      · rfl
      · rfl
      · rfl

/-- Both control lines are set by the same requests. -/
theorem step_lines (hIf : s.commIf = commIf) (a : ControlAction) :
    (s.step a).dtr = (lineSet commIf 0x0001 a).getD s.dtr ∧
      (s.step a).rts = (lineSet commIf 0x0002 a).getD s.rts := by
  cases a with
  | reset | controlIn => exact ⟨rfl, rfl⟩
  | controlOut req data =>
    by_cases hSet : req.To commIf ∧ req.request = reqSetControlLineState
    · obtain ⟨hTo, hLines⟩ := hSet
      have hEncapsulated : req.request ≠ reqSendEncapsulatedCommand := by
        rw [hLines]
        decide
      have hCoding : ¬(req.request = reqSetLineCoding ∧ 7 ≤ data.length) := by
        rw [hLines]
        exact fun h => absurd h.1 (by decide)
      rw [step, controlOut, hIf, if_neg (not_not.mpr hTo), if_neg hEncapsulated, if_neg hCoding,
        if_pos hLines, lineSet, lineSet, if_pos ⟨hTo, hLines⟩, if_pos ⟨hTo, hLines⟩]
      exact ⟨rfl, rfl⟩
    · have hNone (mask : UInt16) : lineSet commIf mask (.controlOut req data) = none := if_neg hSet
      rw [hNone, hNone, step, controlOut, hIf]
      split_ifs with hTo _ _ hLines
      · exact ⟨rfl, rfl⟩
      · exact ⟨rfl, rfl⟩
      · exact absurd ⟨hTo, hLines⟩ hSet
      · exact ⟨rfl, rfl⟩
      · exact ⟨rfl, rfl⟩

/-- The line coding is the one set last, or the default. -/
theorem after_lineCoding (commIf : UInt8) (calls : List ControlAction) :
    (after commIf calls).lineCoding =
      .decode (latest (codingSet commIf) LineCoding.default.encode calls) := by
  have hLatest : (after commIf calls).lineCoding =
      latest (fun a => (codingSet commIf a).map LineCoding.decode) LineCoding.default calls :=
    foldl_latest (fun s a (hIf : s.commIf = commIf) => (step_commIf s a).trans hIf)
      (fun _ a hIf => step_lineCoding hIf a) rfl
  have hDefault : LineCoding.decode LineCoding.default.encode = LineCoding.default := by decide
  rw [hLatest, ← latest_map LineCoding.decode, hDefault]

/-- All that is set is normal, and so is what is there before. -/
theorem normal_latest (commIf : UInt8) (calls : List ControlAction) :
    normal (latest (codingSet commIf) LineCoding.default.encode calls) =
      latest (codingSet commIf) LineCoding.default.encode calls := by
  refine latest_of_forall (I := fun data => normal data = data) (by decide) fun a data hSet => ?_
  cases a with
  | reset =>
    cases hSet
    decide
  | controlIn => cases hSet
  | controlOut req data =>
    obtain ⟨-, hSet⟩ := Option.ite_none_right_eq_some.mp hSet
    cases hSet
    rw [← LineCoding.encode_decode, LineCoding.decode_normal, LineCoding.encode_decode]

/--
**What is set is read back.** After any calls, a request to read the line coding is answered
with the bytes set last since the last reset, except for a number of stop bits or a parity
that there is not, which are zero; the program sees the same line coding, and the two
control lines as they were set last. Requests to other interfaces are ignored, and of those
to this one, all other requests to read are rejected.
-/
theorem control_read_back (commIf : UInt8) (calls : List ControlAction) :
    let s := after commIf calls
    let coding := latest (codingSet commIf) [0x40, 0x1f, 0, 0, 0, 0, 8] calls
    s.lineCoding = .decode coding ∧
      s.dtr = latest (lineSet commIf 0x0001) false calls ∧
      s.rts = latest (lineSet commIf 0x0002) false calls ∧
      ∀ req : Request, s.controlIn req =
        if req.To commIf then
          if req.request = reqGetLineCoding ∧ req.length = 7 then .accepted coding else .rejected
        else .ignored := by
  have hCoding := after_lineCoding commIf calls
  have hStep (s : CdcAcmClass) (a : ControlAction) (hIf : s.commIf = commIf) :
      (s.step a).commIf = commIf := (step_commIf s a).trans hIf
  refine ⟨hCoding, foldl_latest hStep (fun _ a hIf => (step_lines hIf a).1) rfl,
    foldl_latest hStep (fun _ a hIf => (step_lines hIf a).2) rfl, fun req => ?_⟩
  rw [controlIn, after_commIf, ite_not, hCoding, LineCoding.encode_decode, normal_latest]
  rfl

end CdcAcmClass

end Embassy.Extras
