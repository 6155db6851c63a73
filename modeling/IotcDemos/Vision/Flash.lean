import IotcDemos.Lib.NorFlash
import IotcDemos.Lib.Run
import IotcDemos.Vision.Store

set_option autoImplicit false

/-! # The model store on NOR flash

Blobs of any lengths are saved, erased and loaded (`StoreOp`) on a partition of NOR flash; a power
cut can stop any erase and any write. What lies in flash is then a mixture, which only the CRC can
tell from a blob: `CrcDetects` says that it does. Under this assumption the store never delivers
anything but a blob that was passed to a save, or what the flash held at the start
(`flash_store_crash_safe`).
-/

namespace IotcDemos.Vision

open NorFlash (PowerCut)

/-- A blob that `iotv_validate` accepts. -/
structure ValidBlob where
  mem : Mem
  len : ℕ
  valid : IotvValid mem len

def ValidBlob.bytes (b : ValidBlob) : Bytes := bytesAt b.mem 0 b.len

@[simp] theorem ValidBlob.bytes_length (b : ValidBlob) : b.bytes.length = b.len :=
  bytesAt_length _ _ _

theorem ValidBlob.len_le (b : ValidBlob) : b.len ≤ modelMaxBlob := by
  have hfits := b.valid.fits
  have hlen := b.valid.length
  have h32 : hdrLen ≤ modelMaxBlob := by decide
  omega

/-- `slot1_partition` on NOR flash that works until the power fails. The call that the power cut
interrupts does not return to the caller; its status here is not 0. -/
def norArea (faSize : ℕ) (cut : PowerCut) : ReadableArea where
  openRet := 0
  faSize := faSize
  erase n flash :=
    match cut with
    | .inErase sel => (- EIO, NorFlash.eraseSel flashSector sel n flash)
    | _ => (0, NorFlash.erase flashSector n flash)
  write blob len flash :=
    match cut with
    | .inWrite k => (- EIO, NorFlash.program 0 ((bytesAt blob 0 len).take k) flash)
    | _ => (0, NorFlash.program 0 (bytesAt blob 0 len) flash)
  read n flash := (0, bytesAt flash 0 n)

inductive StoreOp where
  | save (b : ValidBlob) (cut : PowerCut)
  | erase (cut : PowerCut)
  | load (buf : Mem) (bufSize : ℕ)

inductive StoreAnswer where
  | status (ret : ℤ)
  | loaded (ret : ℤ) (buf : Mem) (outLen : Option ℕ)

/-- One operation; the state is what lies in flash. -/
def storeStep (faSize : ℕ) : StoreOp → Mem → StoreAnswer × Mem
  | .save b cut, flash =>
      let (ret, flash) := modelStoreSave (norArea faSize cut).toFlashArea b.mem b.len flash
      (.status ret, flash)
  | .erase cut, flash =>
      let (ret, flash) := modelStoreErase (norArea faSize cut).toFlashArea flash
      (.status ret, flash)
  | .load buf bufSize, flash =>
      let (ret, buf, outLen) := modelStoreLoad (norArea faSize .never) buf bufSize flash
      (.loaded ret buf outLen, flash)

namespace StoreOp

/-- The blob passed to a save. -/
def blob : StoreOp → Option ValidBlob
  | save b _ => some b
  | _ => none

def cut : StoreOp → PowerCut
  | save _ cut => cut
  | erase cut => cut
  | load _ _ => .never

end StoreOp

/-- The length of the blob that the header in flash states. -/
def imageLen (flash : Mem) : ℕ := hdrLen + (iotvHdr flash).modelLen.toNat

/-- What lies in flash is neither what lay there before nor the blob being saved. -/
def Mixed (op : StoreOp) (before after : Mem) : Prop :=
  bytesAt after 0 (imageLen after) ≠ bytesAt before 0 (imageLen after) ∧
    ∀ b, op.blob = some b → bytesAt after 0 (imageLen after) ≠ b.bytes

/-- The CRC in the header tells that an image of at most `MODEL_MAX_BLOB` bytes which a power cut
left is mixed. -/
def CrcDetects (faSize : ℕ) (op : StoreOp) (before : Mem) : Prop :=
  let after := (storeStep faSize op before).2
  op.cut ≠ .never → imageLen after ≤ modelMaxBlob → Mixed op before after →
    Crc32.ieee (bytesAt after hdrLen (iotvHdr after).modelLen.toNat) ≠ (iotvHdr after).crc

/-- The store in a run of `ops` from the contents `flash0`, and from any contents. -/
structure CrashSafe (faSize : ℕ) (flash0 : Mem) (ops : List StoreOp) : Prop where
  /-- A load delivers a valid blob that some save was given, or that lay there at the start. -/
  delivers : ∀ buf bufSize buf' outLen,
    (storeStep faSize (.load buf bufSize) (runState (storeStep faSize) ops flash0)).1
        = .loaded 0 buf' outLen →
      ∃ len, outLen = some len ∧ len ≤ bufSize ∧ iotvValidate buf' len = none ∧
        (bytesAt buf' 0 len = bytesAt flash0 0 len ∨
          ∃ b, (∃ op ∈ ops, op.blob = some b) ∧ bytesAt buf' 0 len = b.bytes)
  /-- After a save that nothing interrupts, whatever lay in flash, a load delivers the blob. -/
  saved : ∀ flash b buf bufSize, b.len ≤ bufSize →
    (storeStep faSize (.save b .never) flash).1 = .status 0 ∧
      ∃ buf', (storeStep faSize (.load buf bufSize)
          (storeStep faSize (.save b .never) flash).2).1 = .loaded 0 buf' (some b.len) ∧
        bytesAt buf' 0 b.len = b.bytes
  /-- After an erase that nothing interrupts there is nothing to load. -/
  erased : ∀ flash buf bufSize,
    (storeStep faSize (.load buf bufSize) (storeStep faSize (.erase .never) flash).2).1
      = .loaded (-ENOENT) buf none

/-! ## Loading -/

/-- A load, in terms of the header in flash and what lies behind it. -/
theorem load_eq (faSize : ℕ) (buf : Mem) (bufSize : ℕ) (flash : Mem) :
    modelStoreLoad (norArea faSize .never) buf bufSize flash =
      if (iotvHdr flash).magic ≠ iotvMagic then (-ENOENT, buf, none)
      else if (iotvHdr flash).fmtVer ≠ iotvFmtVer ∨ (iotvHdr flash).modelLen = 0 ∨
          (iotvHdr flash).modelLen.toNat > modelMaxBlob - hdrLen then (-ENOENT, buf, none)
      else if imageLen flash > bufSize then (-ENOMEM, buf, none)
      else
        match iotvValidate (patch buf 0 (bytesAt flash 0 (imageLen flash))) (imageLen flash) with
        | some _ => (-ENOENT, patch buf 0 (bytesAt flash 0 (imageLen flash)), none)
        | none => (0, patch buf 0 (bytesAt flash 0 (imageLen flash)), some (imageLen flash)) := by
  simp only [modelStoreLoad, norArea, iotvHdr_bytesAt, imageLen]
  rfl

/-- Memories with the same first bytes are equally valid. -/
theorem IotvValid.of_bytes {buf buf' : Mem} {len : ℕ} (h : IotvValid buf len)
    (hsame : bytesAt buf' 0 len = bytesAt buf 0 len) : IotvValid buf' len := by
  apply h.congr
  intro i hi
  have hbyte := congrArg (byteAt · i) hsame
  simp only [byteAt_bytesAt _ 0 hi, Nat.zero_add] at hbyte
  exact hbyte.symm

/-- A valid blob is as long as its header states. -/
theorem IotvValid.imageLen_eq {flash : Mem} {len : ℕ} (h : IotvValid flash len) :
    imageLen flash = len := h.length.symm

/-- A load that returns 0 has found a valid blob, and delivers it. -/
theorem load_valid {faSize : ℕ} {buf flash buf' : Mem} {bufSize : ℕ} {outLen : Option ℕ}
    (h : modelStoreLoad (norArea faSize .never) buf bufSize flash = (0, buf', outLen)) :
    ∃ len, outLen = some len ∧ len ≤ bufSize ∧ IotvValid buf' len ∧
      bytesAt buf' 0 len = bytesAt flash 0 len := by
  have hent : (-ENOENT : ℤ) ≠ 0 := by decide
  have hmem : (-ENOMEM : ℤ) ≠ 0 := by decide
  rw [load_eq] at h
  split_ifs at h with hmagic hrange hsize
  · exact absurd (congrArg Prod.fst h) hent
  · exact absurd (congrArg Prod.fst h) hent
  · exact absurd (congrArg Prod.fst h) hmem
  · split at h
    · exact absurd (congrArg Prod.fst h) hent
    · next hval =>
      obtain ⟨-, rfl, rfl⟩ : (0 : ℤ) = 0 ∧ _ = buf' ∧ _ = outLen := by simpa using h
      exact ⟨_, rfl, Nat.le_of_not_lt hsize, iotvValidate_eq_none.mp hval,
        bytesAt_patch_bytesAt buf flash 0 0 _⟩

/-- A valid blob in flash that fits the buffer is delivered. -/
theorem load_of_valid {faSize : ℕ} {flash : Mem} {len bufSize : ℕ} (buf : Mem)
    (h : IotvValid flash len) (hfits : len ≤ bufSize) :
    modelStoreLoad (norArea faSize .never) buf bufSize flash
      = (0, patch buf 0 (bytesAt flash 0 len), some len) := by
  have hzero : (iotvHdr flash).modelLen ≠ 0 := by
    intro hzero
    have hpos := h.pos
    rw [hzero] at hpos
    exact absurd hpos (by decide)
  have hrange : ¬ ((iotvHdr flash).fmtVer ≠ iotvFmtVer ∨ (iotvHdr flash).modelLen = 0 ∨
      (iotvHdr flash).modelLen.toNat > modelMaxBlob - hdrLen) := by
    rintro (hver | hlen | hlen)
    · exact hver h.fmtVer
    · exact hzero hlen
    · exact absurd h.fits (by omega)
  have hlen := h.imageLen_eq
  rw [load_eq, if_neg (not_not.mpr h.magic), if_neg hrange, if_neg (by omega), hlen,
    iotvValidate_eq_none.mpr (h.of_bytes (bytesAt_patch_bytesAt buf flash 0 0 len))]

/-- Where the magic is gone there is nothing to load. -/
theorem load_empty {faSize : ℕ} {flash : Mem} (buf : Mem) (bufSize : ℕ)
    (h : (iotvHdr flash).magic ≠ iotvMagic) :
    modelStoreLoad (norArea faSize .never) buf bufSize flash = (-ENOENT, buf, none) := by
  rw [load_eq, if_pos h]

/-! ## Saving and erasing -/

section Steps

variable {faSize : ℕ}

/-- The bytes that a save erases: the length, rounded up to whole sectors. -/
def eraseLen (len : ℕ) : ℕ := (len + (flashSector - 1)) / flashSector * flashSector

theorem eraseLen_bounds {len : ℕ} (h : len ≤ modelMaxBlob) :
    len ≤ eraseLen len ∧ eraseLen len ≤ modelMaxBlob := by
  simp only [eraseLen, flashSector, modelMaxBlob] at h ⊢
  omega

theorem modelStoreSave_never (hsize : modelMaxBlob ≤ faSize) (blob : Mem) {len : ℕ} (flash : Mem)
    (hlen : len ≤ modelMaxBlob) :
    modelStoreSave (norArea faSize .never).toFlashArea blob len flash = (0, NorFlash.program 0
      (bytesAt blob 0 len) (NorFlash.erase flashSector (eraseLen len) flash)) := by
  have hbounds := eraseLen_bounds hlen
  have hroom : ¬ eraseLen len > faSize := by omega
  rw [eraseLen] at hroom
  simp only [modelStoreSave, norArea]
  rw [if_neg hroom]
  rfl

/-- A save leaves the blob in flash, whatever lay there. -/
theorem save_never (hsize : modelMaxBlob ≤ faSize) (b : ValidBlob) (flash : Mem) :
    (storeStep faSize (.save b .never) flash).1 = .status 0 ∧
      bytesAt (storeStep faSize (.save b .never) flash).2 0 b.len = b.bytes := by
  have hstep : storeStep faSize (.save b .never) flash = (.status 0, NorFlash.program 0 b.bytes
      (NorFlash.erase flashSector (eraseLen b.len) flash)) := by
    simp only [storeStep]
    rw [modelStoreSave_never hsize b.mem flash b.len_le]
    rfl
  rw [hstep]
  have hroom : b.bytes.length ≤ eraseLen b.len := by
    rw [b.bytes_length]
    exact (eraseLen_bounds b.len_le).1
  have hread := NorFlash.bytesAt_program_erase flashSector flash hroom
  rw [b.bytes_length] at hread
  exact ⟨rfl, hread⟩

/-- Erasing the first sector takes the magic away. -/
theorem magic_erased (flash : Mem) {n : ℕ} (h : 0 < n) :
    (iotvHdr (NorFlash.erase flashSector n flash)).magic ≠ iotvMagic := by
  intro hmagic
  have hfirst : (iotvHdr (NorFlash.erase flashSector n flash)).magic.head?
      = some (NorFlash.erase flashSector n flash 0) := rfl
  rw [hmagic, NorFlash.erase_inside flashSector flash h] at hfirst
  exact absurd hfirst (by decide)

theorem erase_never (flash : Mem) :
    (iotvHdr (storeStep faSize (.erase .never) flash).2).magic ≠ iotvMagic :=
  magic_erased flash (by decide)

/-! ## Runs -/

theorem load_answer {buf flash buf' : Mem} {bufSize : ℕ} {ret : ℤ} {outLen : Option ℕ} :
    (storeStep faSize (.load buf bufSize) flash).1 = .loaded ret buf' outLen ↔
      modelStoreLoad (norArea faSize .never) buf bufSize flash = (ret, buf', outLen) := by
  rw [storeStep, StoreAnswer.loaded.injEq, Prod.ext_iff, Prod.ext_iff]

/-- Every valid blob that can be found in flash lay there at the start or was saved. -/
def FlashSound (flash0 : Mem) (ops : List StoreOp) (flash : Mem) : Prop :=
  ∀ len, IotvValid flash len → bytesAt flash 0 len = bytesAt flash0 0 len ∨
    ∃ b, (∃ op ∈ ops, op.blob = some b) ∧ bytesAt flash 0 len = b.bytes

/-- What lies in flash after an operation that a power cut stopped, if it is valid. -/
theorem cut_valid {op : StoreOp} {before : Mem} {len : ℕ} (hcrc : CrcDetects faSize op before)
    (hcut : op.cut ≠ .never) (h : IotvValid (storeStep faSize op before).2 len) :
    bytesAt (storeStep faSize op before).2 0 len = bytesAt before 0 len ∨
      ∃ b, op.blob = some b ∧ bytesAt (storeStep faSize op before).2 0 len = b.bytes := by
  by_contra hneither
  rw [not_or] at hneither
  have hfits : imageLen (storeStep faSize op before).2 ≤ modelMaxBlob := by
    have hrange := h.fits
    have h32 : hdrLen ≤ modelMaxBlob := by decide
    rw [imageLen]
    omega
  apply hcrc hcut hfits _ h.crc
  rw [Mixed, h.imageLen_eq]
  exact ⟨hneither.1, fun b hb heq => hneither.2 ⟨b, hb, heq⟩⟩

theorem storeStep_sound {flash0 before : Mem} {ops : List StoreOp} {op : StoreOp}
    (hsize : modelMaxBlob ≤ faSize) (hop : op ∈ ops) (hcrc : CrcDetects faSize op before)
    (h : FlashSound flash0 ops before) : FlashSound flash0 ops (storeStep faSize op before).2 := by
  intro len hvalid
  by_cases hcut : op.cut = .never
  · cases op with
    | load buf bufSize => exact h len hvalid
    | erase cut =>
      cases hcut
      exact absurd hvalid.magic (erase_never before)
    | save b cut =>
      cases hcut
      -- the header in flash is the one of the saved blob, so its length is the blob's
      have hbytes := (save_never hsize b before).2
      have hlen : len = b.len :=
        hvalid.imageLen_eq.symm.trans (b.valid.of_bytes hbytes).imageLen_eq
      rw [hlen]
      exact Or.inr ⟨b, ⟨_, hop, rfl⟩, hbytes⟩
  · rcases cut_valid hcrc hcut hvalid with hbefore | ⟨b, hblob, hbytes⟩
    · rw [hbefore]
      exact h len (hvalid.of_bytes hbefore.symm)
    · exact Or.inr ⟨b, ⟨op, hop, hblob⟩, hbytes⟩

/-- The store is crash-safe: power cuts inside erases and writes, where the CRC tells mixed images
from blobs, never make a load deliver anything else than a saved blob or the initial contents. A
save that completes is what the next load delivers, and after an erase there is nothing. -/
theorem flash_store_crash_safe (hsize : modelMaxBlob ≤ faSize) (flash0 : Mem)
    (ops : List StoreOp) (hcrc : Along (storeStep faSize) (CrcDetects faSize) ops flash0) :
    CrashSafe faSize flash0 ops := by
  constructor
  · intro buf bufSize buf' outLen hload
    have hsound : FlashSound flash0 ops (runState (storeStep faSize) ops flash0) :=
      (trace_inv_along (fun _ _ hq h => storeStep_sound hsize hq.1 hq.2 h) hcrc.mem
        fun _ _ => Or.inl rfl).2
    obtain ⟨len, hlen, hfits, hvalid, hbytes⟩ := load_valid (load_answer.mp hload)
    refine ⟨len, hlen, hfits, iotvValidate_eq_none.mpr hvalid, ?_⟩
    rw [hbytes]
    exact hsound len (hvalid.of_bytes hbytes.symm)
  · intro flash b buf bufSize hfits
    obtain ⟨hret, hbytes⟩ := save_never hsize b flash
    refine ⟨hret, _, load_answer.mpr (load_of_valid buf (b.valid.of_bytes hbytes) hfits), ?_⟩
    exact (bytesAt_patch_bytesAt buf _ 0 0 b.len).trans hbytes
  · intro flash buf bufSize
    exact load_answer.mpr (load_empty buf bufSize (erase_never flash))

end Steps

/-- A payload of one byte, wrapped. -/
def oneByte (x : UInt8) : ValidBlob :=
  ⟨iotvWrapInPlace (fun _ => x) 1 1 [], hdrLen + 1,
    iotvWrapInPlace_valid _ 1 [] (by decide) (by decide)⟩

/-- A save, a save cut behind the header, an erase cut before its sector and one behind it. -/
def cutStore : List StoreOp :=
  [.save (oneByte 1) .never, .save (oneByte 2) (.inWrite 32), .erase (.inErase fun _ => false),
    .erase (.inErase fun _ => true)]

theorem flash_store_crash_safe_cut : CrashSafe (7 * 1024 * 1024) (fun _ => 0xFF) cutStore := by
  apply flash_store_crash_safe (by decide)
  refine ⟨fun hcut => absurd rfl hcut, fun _ _ _ => ?_, fun _ _ hmixed => absurd ?_ hmixed.1,
    fun _ hfits => absurd hfits ?_, trivial⟩ <;> decide +kernel

end IotcDemos.Vision
