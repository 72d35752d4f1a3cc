import Embassy.Lib.Bytes

/-!
# Custom instructions of the QSPI

`custom_instruction` of `embassy-nrf/src/qspi.rs`. A request of up to eight bytes is packed
into two registers, and the response is unpacked from the same registers.

* `pack_toNat` — the registers hold the bytes of the request.
* `getD_unpack` — what the two loops leave in the response.
* `custom_instruction_bytes` — the second loop writes to the places of the first, so the
  response is right exactly if it makes no difference.
-/

namespace Embassy.Nrf

open Lib

structure Cinstrconf where
  opcode : UInt8
  length : UInt8
  lio2 : Bool
  lio3 : Bool
  wipwait : Bool
  wren : Bool
  lfen : Bool
  lfstop : Bool
  deriving DecidableEq, Repr

/-- The registers of the peripheral that are used. -/
structure Qspi where
  cinstrdat0 : UInt32
  cinstrdat1 : UInt32
  cinstrconf : Cinstrconf
  eventsReady : Bool
  /-- The interrupt of the event is enabled. -/
  intenReady : Bool
  deriving DecidableEq, Repr

namespace Qspi

/-- A loop that packs, up to `n` and with the bytes of `req` from `off` on. -/
def pack (req : List UInt8) (off n : Nat) : UInt32 :=
  (List.range n).foldl (fun dat i =>
    if i + off < req.length then dat ||| (req.getD (i + off) 0).toUInt32 <<< UInt32.ofNat (i * 8)
    else dat) 0

/-- A loop that unpacks, up to `n`; it ends where `i + off` is outside of `resp`. -/
def unpack (dat : UInt32) (off n : Nat) (resp : List UInt8) : List UInt8 :=
  (List.range n).foldl (fun resp i =>
    if i + off < resp.length then resp.set i (dat >>> UInt32.ofNat (i * 8)).toUInt8
    else resp) resp

/-- What is written before `wait_ready`. -/
def request (opcode : UInt8) (req resp : List UInt8) : Qspi :=
  let dat0 := pack req 0 4
  let dat1 := pack req 4 4
  let len := UInt8.ofNat (max req.length resp.length)
  { cinstrdat0 := dat0
    cinstrdat1 := dat1
    cinstrconf :=
      { opcode := opcode, length := len + 1, lio2 := true, lio3 := true, wipwait := true,
        wren := true, lfen := false, lfstop := false }
    eventsReady := false
    intenReady := true }

/-- What is read after `wait_ready`. -/
def response (r : Qspi) (resp : List UInt8) : List UInt8 :=
  let dat0 := r.cinstrdat0
  let dat1 := r.cinstrdat1
  let resp := unpack dat0 0 4 resp
  -- this loop writes from the front again
  unpack dat1 4 4 resp

/-- `none` is a failed assertion; `device` is what the peripheral does until `wait_ready`
returns. -/
def customInstruction (device : Qspi → Qspi) (opcode : UInt8) (req resp : List UInt8) :
    Option (List UInt8) :=
  if req.length ≤ 8 ∧ resp.length ≤ 8 then
    some (response (device (request opcode req resp)) resp)
  else none

/-- `CINSTRDAT1:CINSTRDAT0` -/
def dat (r : Qspi) : Nat := r.cinstrdat0.toNat + 2 ^ 32 * r.cinstrdat1.toNat

-- ---------------------------------------------------------------------------
-- Packing
-- ---------------------------------------------------------------------------

/-- A byte moved to its place in the word. -/
theorem toNat_shiftLeft_byte (b : UInt8) {i : Nat} (h : i < 4) :
    (b.toUInt32 <<< UInt32.ofNat (i * 8)).toNat = b.toNat <<< (8 * i) := by
  have hByte := b.toNat_lt
  have hShift : (UInt32.ofNat (i * 8)).toNat % 32 = 8 * i := by
    rw [UInt32.toNat_ofNat']
    omega
  rw [UInt32.toNat_shiftLeft, hShift, UInt8.toNat_toUInt32]
  refine Nat.mod_eq_of_lt ?_
  rw [Nat.shiftLeft_eq]
  calc b.toNat * 2 ^ (8 * i) < 2 ^ 8 * 2 ^ (8 * i) :=
        Nat.mul_lt_mul_of_pos_right hByte (Nat.two_pow_pos _)
    _ = 2 ^ (8 + 8 * i) := (Nat.pow_add 2 8 (8 * i)).symm
    _ ≤ 2 ^ 32 := Nat.pow_le_pow_right (by decide) (by omega)

/-- On the bytes that are packed. -/
theorem pack_toNat (req : List UInt8) (off : Nat) {n : Nat} (h : n ≤ 4) :
    (pack req off n).toNat = littleEndian (fun i => req.getD (off + i) 0) n := by
  induction n with
  | zero => rfl
  | succ n ih =>
    have hBefore := ih (by omega)
    unfold pack at hBefore ⊢
    rw [List.range_succ, List.foldl_append, List.foldl_cons, List.foldl_nil,
      littleEndian_succ_or, ← hBefore]
    split
    · rw [UInt32.toNat_or, toNat_shiftLeft_byte _ (by omega), Nat.add_comm n off]
    · rename_i hOut
      have hZero : req.getD (off + n) 0 = 0 := by
        rw [List.getD_eq_getElem?_getD, List.getElem?_eq_none (by omega), Option.getD_none]
      rw [hZero]
      simp

/-- The request is in the registers, and zeros after it. -/
theorem byteAt_pack (req : List UInt8) {k : Nat} (h : k < 8) :
    byteAt ((pack req 0 4).toNat + 2 ^ 32 * (pack req 4 4).toNat) k = (req.getD k 0).toNat := by
  have hDat : (pack req 0 4).toNat + 2 ^ 32 * (pack req 4 4).toNat =
      littleEndian (fun i => req.getD i 0) (4 + 4) := by
    rw [pack_toNat req 0 (Nat.le_refl 4), pack_toNat req 4 (Nat.le_refl 4), littleEndian_add]
    simp only [Nat.zero_add]
    rfl
  rw [hDat, littleEndian_byte h]

-- ---------------------------------------------------------------------------
-- Unpacking
-- ---------------------------------------------------------------------------

/-- A byte taken from its place in the word. -/
theorem toNat_shiftRight_byte (w : UInt32) {i : Nat} (h : i < 4) :
    (w >>> UInt32.ofNat (i * 8)).toUInt8.toNat = byteAt w.toNat i := by
  have hShift : (UInt32.ofNat (i * 8)).toNat % 32 = 8 * i := by
    rw [UInt32.toNat_ofNat']
    omega
  rw [UInt32.toNat_toUInt8, UInt32.toNat_shiftRight, hShift, Nat.shiftRight_eq_div_pow,
    Nat.pow_mul]
  rfl

theorem length_unpack (w : UInt32) (off n : Nat) (resp : List UInt8) :
    (unpack w off n resp).length = resp.length := by
  induction n with
  | zero => rfl
  | succ n ih =>
    unfold unpack at ih ⊢
    rw [List.range_succ, List.foldl_append, List.foldl_cons, List.foldl_nil]
    split
    · rw [List.length_set, ih]
    · exact ih

/-- On the bytes that are unpacked. -/
theorem getD_unpack (w : UInt32) (off : Nat) {n : Nat} (h : n ≤ 4) (resp : List UInt8) (k : Nat) :
    ((unpack w off n resp).getD k 0).toNat =
      if k < n ∧ k + off < resp.length then byteAt w.toNat k else (resp.getD k 0).toNat := by
  -- induction on the bytes written; the last one writes index `n` only
  induction n with
  | zero => simp [unpack]
  | succ n ih =>
    have hBefore := ih (by omega)
    have hLen := length_unpack w off n resp
    unfold unpack at hBefore hLen ⊢
    rw [List.range_succ, List.foldl_append, List.foldl_cons, List.foldl_nil, hLen]
    by_cases hIn : n + off < resp.length
    · rw [if_pos hIn]
      rcases Nat.lt_trichotomy k n with hLt | rfl | hGt
      · rw [List.getD_eq_getElem?_getD, List.getElem?_set_ne (by omega),
          ← List.getD_eq_getElem?_getD, hBefore]
        simp only [hLt, true_and, show k < n + 1 by omega]
      · rw [List.getD_eq_getElem?_getD, List.getElem?_set_self (by omega), Option.getD_some,
          toNat_shiftRight_byte w (by omega), if_pos ⟨Nat.lt_succ_self k, hIn⟩]
      · rw [List.getD_eq_getElem?_getD, List.getElem?_set_ne (by omega),
          ← List.getD_eq_getElem?_getD, hBefore, if_neg (by omega), if_neg (by omega)]
    · rw [if_neg hIn, hBefore]
      refine if_congr ?_ rfl rfl
      omega

/-- Where the second loop reaches, it overwrites what the first wrote. -/
theorem getD_response (r : Qspi) (resp : List UInt8) (k : Nat) :
    ((response r resp).getD k 0).toNat =
      if k < 4 ∧ k + 4 < resp.length then byteAt r.cinstrdat1.toNat k
      else if k < 4 ∧ k < resp.length then byteAt r.cinstrdat0.toNat k
      else (resp.getD k 0).toNat := by
  unfold response
  simp only [getD_unpack r.cinstrdat1 4 (Nat.le_refl 4), getD_unpack r.cinstrdat0 0 (Nat.le_refl 4),
    length_unpack, Nat.add_zero]

/-- The bytes of both registers in one row. -/
theorem byteAt_dat (r : Qspi) {k : Nat} (h : k < 8) : byteAt r.dat k =
    if k < 4 then byteAt r.cinstrdat0.toNat k else byteAt r.cinstrdat1.toNat (k - 4) := by
  have hLt := r.cinstrdat0.toNat_lt
  unfold byteAt dat
  rcases Nat.lt_or_ge k 4 with hLow | hHigh
  · rw [if_pos hLow]
    obtain ⟨m, hm⟩ := Nat.exists_eq_add_of_lt hLow
    have hPow : 2 ^ 32 * r.cinstrdat1.toNat = 256 ^ k * (256 * (256 ^ m * r.cinstrdat1.toNat)) := by
      rw [show (2 : Nat) ^ 32 = 256 ^ (k + m + 1) by rw [← hm]; rfl]
      ring
    rw [hPow, Nat.add_mul_div_left _ _ (Nat.pow_pos (by decide)), Nat.add_mul_mod_self_left]
  · rw [if_neg (Nat.not_lt_of_le hHigh)]
    obtain ⟨m, rfl⟩ := Nat.exists_eq_add_of_le hHigh
    rw [Nat.add_sub_cancel_left, Nat.pow_add, ← Nat.div_div_eq_div_mul,
      show (256 : Nat) ^ 4 = 2 ^ 32 by decide, Nat.add_mul_div_left _ _ (Nat.two_pow_pos 32),
      Nat.div_eq_of_lt hLt, Nat.zero_add]

/-- The response is what was read back. -/
def Unpacked (r : Qspi) (resp : List UInt8) : Prop :=
  ∀ k < resp.length, ((response r resp).getD k 0).toNat = byteAt r.dat k

/-- The bytes of the second register are those of the first, and are already in their places. -/
theorem unpacked_iff (r : Qspi) {resp : List UInt8} (hResp : resp.length ≤ 8) :
    Unpacked r resp ↔ ∀ i, i + 4 < resp.length →
      byteAt r.cinstrdat1.toNat i = byteAt r.cinstrdat0.toNat i ∧
        (resp.getD (i + 4) 0).toNat = byteAt r.cinstrdat1.toNat i := by
  constructor
  · -- the second register overwrites the first four bytes
    intro h i hi
    have hFirst := h i (by omega)
    have hSecond := h (i + 4) hi
    rw [getD_response, if_pos ⟨by omega, hi⟩, byteAt_dat r (by omega), if_pos (by omega)]
      at hFirst
    rw [getD_response, if_neg (by omega), if_neg (by omega), byteAt_dat r (by omega),
      if_neg (by omega), Nat.add_sub_cancel] at hSecond
    exact ⟨hFirst, hSecond⟩
  · intro h k hk
    rw [getD_response, byteAt_dat r (by omega)]
    rcases Nat.lt_or_ge k 4 with hLow | hHigh
    · rw [if_pos hLow]
      by_cases hOver : k + 4 < resp.length
      · rw [if_pos ⟨hLow, hOver⟩, (h k hOver).1]
      · rw [if_neg (fun hBoth => hOver hBoth.2), if_pos ⟨hLow, hk⟩]
    · obtain ⟨i, rfl⟩ := Nat.exists_eq_add_of_le' hHigh
      rw [if_neg (by omega), if_neg (by omega), if_neg (by omega), Nat.add_sub_cancel]
      exact (h i hk).2

theorem length_response (r : Qspi) (resp : List UInt8) :
    (response r resp).length = resp.length := by
  unfold response
  simp only [length_unpack]

/-- The request is in the registers, filled up with zeros. -/
theorem byteAt_request (opcode : UInt8) (req resp : List UInt8) {k : Nat} (h : k < 8) :
    byteAt (request opcode req resp).dat k = (req.getD k 0).toNat :=
  byteAt_pack req h

/-- The request is packed as it should be. The response is what was read back exactly if the
bytes behind the fourth are those before it, and in the buffer before the call; so is what a
device that echoes the request answers with. -/
theorem custom_instruction_bytes (device : Qspi → Qspi) (opcode : UInt8) (req resp : List UInt8)
    (hReq : req.length ≤ 8) (hResp : resp.length ≤ 8) :
    customInstruction device opcode req resp =
      some (response (device (request opcode req resp)) resp) ∧
    (∀ k < 8, byteAt (request opcode req resp).dat k = (req.getD k 0).toNat) ∧
    (∀ r : Qspi, Unpacked r resp ↔ ∀ i, i + 4 < resp.length →
      byteAt r.cinstrdat1.toNat i = byteAt r.cinstrdat0.toNat i ∧
        (resp.getD (i + 4) 0).toNat = byteAt r.cinstrdat1.toNat i) ∧
    ((∀ r, (device r).cinstrdat0 = r.cinstrdat0 ∧ (device r).cinstrdat1 = r.cinstrdat1) →
      req.length = resp.length →
        (customInstruction device opcode req resp = some req ↔ ∀ i, i + 4 < req.length →
          req.getD (i + 4) 0 = req.getD i 0 ∧ resp.getD (i + 4) 0 = req.getD i 0)) := by
  have hCall : customInstruction device opcode req resp =
      some (response (device (request opcode req resp)) resp) := if_pos ⟨hReq, hResp⟩
  refine ⟨hCall, fun k hk => byteAt_request opcode req resp hk,
    fun r => unpacked_iff r hResp, fun hEcho hLen => ?_⟩
  obtain ⟨h₀, h₁⟩ := hEcho (request opcode req resp)
  generalize hr : device (request opcode req resp) = r at *
  -- a device that echoes leaves the request in the registers
  have hDat : ∀ k < 8, byteAt r.dat k = (req.getD k 0).toNat := by
    intro k hk
    rw [dat, h₀, h₁]
    exact byteAt_request opcode req resp hk
  -- so the answer is the request when the bytes are unpacked right
  have hUnpacked : response r resp = req ↔ Unpacked r resp := by
    constructor
    · intro hEq k hk
      rw [hEq, hDat k (by omega)]
    · intro h
      refine List.ext_getElem ((length_response r resp).trans hLen.symm) fun k hk hk' => ?_
      have hByte := h k (length_response r resp ▸ hk)
      rw [hDat k (by omega), UInt8.toNat_inj] at hByte
      simpa only [List.getD_eq_getElem?_getD, List.getElem?_eq_getElem hk,
        List.getElem?_eq_getElem hk', Option.getD_some] using hByte
  rw [hCall, Option.some_inj, hUnpacked, unpacked_iff r hResp, hLen]
  refine forall_congr' fun i => imp_congr_right fun hi => ?_
  have hLow := byteAt_dat r (k := i) (by omega)
  have hHigh := byteAt_dat r (k := i + 4) (by omega)
  rw [if_pos (by omega), hDat i (by omega)] at hLow
  rw [if_neg (by omega), Nat.add_sub_cancel, hDat (i + 4) (by omega)] at hHigh
  rw [← hLow, ← hHigh, UInt8.toNat_inj, UInt8.toNat_inj]
  constructor
  · rintro ⟨hSame, hOld⟩
    exact ⟨hSame, hOld.trans hSame⟩
  · rintro ⟨hSame, hOld⟩
    exact ⟨hSame, hOld.trans hSame.symm⟩

theorem custom_instruction_bytes_repeated :
    customInstruction id 0x9f [1, 2, 3, 4, 1] [0, 0, 0, 0, 1] = some [1, 2, 3, 4, 1] := by
  have hBytes := custom_instruction_bytes id 0x9f [1, 2, 3, 4, 1] [0, 0, 0, 0, 1] (by decide)
    (by decide)
  refine (hBytes.2.2.2 (fun r => ⟨rfl, rfl⟩) rfl).mpr fun i hi => ?_
  obtain rfl : i = 0 := Nat.lt_one_iff.mp (Nat.lt_of_add_lt_add_right hi)
  exact ⟨rfl, rfl⟩

/-- The fifth byte is found at the place of the first. -/
theorem custom_instruction_echo : customInstruction id 0x9f [1, 2, 3, 4, 5] [0, 0, 0, 0, 0] =
    some [5, 2, 3, 4, 0] := by
  decide

end Qspi

end Embassy.Nrf
