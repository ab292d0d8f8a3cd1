import LonganPi.Cdrom.Lun
import LonganPi.Lib.MixedRadix

/-!
# Which image sizes have exact addresses

Both address forms are digits in a mixed radix: 75 frames, 60 seconds and a
byte of minutes for a CD, three bytes for a DVD.  `CD_MAX_MSF_SECTORS` keeps
the first form below its limit.  The second one has a limit too, and nothing
checks it.

* `AddressesExact` says that a host reads back what was meant.
* `msfAddress_msfBytes` and `endSector_eq` are the two round trips.
* `addressesExact_iff` is the condition on the size of the image.
-/

namespace LonganPi.Cdrom

open MixedRadix

variable {store : Bool → Nat → List (BitVec 8)} {curlun lun : FsgLun}
  {size blkbits : Nat}

/-! ## What a host reads -/

/-- The address of the four bytes 0, minute, second and frame. -/
def msfAddress : List (BitVec 8) → Nat
  | [_, minute, second, frame] =>
    decode [75, 60, 256] [frame.toNat, second.toNat, minute.toNat] - 2 * 75
  | _ => 0

/-- `get_unaligned_be24` at a position. -/
def getUnalignedBe24 (buf : Buffer) (i : Nat) : Nat :=
  decode [256, 256, 256]
    [(buf (i + 2)).toNat, (buf (i + 1)).toNat, (buf i).toNat]

/-- The first sector of the data area in the reply to
`READ_DISC_STRUCTURE`. -/
def startSector (buf : Buffer) : Nat := getUnalignedBe24 buf (4 + 5)

/-- The end sector of the data area. -/
def endSector (buf : Buffer) : Nat := getUnalignedBe24 buf (4 + 9)

/-- The bytes of an address in MSF form: behind a lead-in of 2 seconds, split
by 75 and by 60, with a byte for the minutes. -/
def msfBytes (addr : Nat) : List (BitVec 8) :=
  let addr := (addr + 2 * 75) % 2 ^ 32
  [0, BitVec.ofNat 8 (addr / 75 / 60), BitVec.ofNat 8 (addr / 75 % 60),
    BitVec.ofNat 8 (addr % 75)]

/-- `store_cdrom_address` stores the MSF form of a `u32`. -/
def StoresMsf (store : Bool → Nat → List (BitVec 8)) : Prop :=
  ∀ addr < 2 ^ 32, store true addr = msfBytes addr

/-- A host that decodes an address gets the one that was meant. -/
structure AddressesExact (store : Bool → Nat → List (BitVec 8))
    (lun : FsgLun) : Prop where
  /-- The addresses of a CD, up to the lead-out. -/
  msf : lun.cdAsDvd = false →
    (∀ addr ≤ lun.numSectors, msfAddress (store true addr) = addr) ∧
      msfAddress (leadOut store lun true) = lun.numSectors
  /-- The addresses that `do_read_header` goes on to send. -/
  header : ∀ cmnd, readHeaderSense lun cmnd = none →
    ∀ addr ≤ lun.numSectors, msfAddress (store true addr) = addr
  /-- The end sector of a DVD, and the size that follows from it. -/
  dvd : lun.cdAsDvd = true → ∀ cmnd buf : Buffer, cmnd 7 = 0 →
    (doReadDiscStructure lun cmnd buf).2.2 = 2052 ∧
      endSector (doReadDiscStructure lun cmnd buf).2.1
        = 0x030000 + lun.numSectors ∧
      endSector (doReadDiscStructure lun cmnd buf).2.1
          - startSector (doReadDiscStructure lun cmnd buf).2.1
        = lun.numSectors

/-! ## The two round trips -/

/-- An MSF address is exact while its minutes fit a byte. -/
theorem msfAddress_msfBytes {addr : Nat}
    (haddr : addr + 2 * 75 < 256 * 60 * 75) :
    msfAddress (msfBytes addr) = addr := by
  have hprod : [75, 60, 256].prod = 256 * 60 * 75 := by simp
  have hdigits : decode [75, 60, 256] (encode [75, 60, 256] (addr + 2 * 75))
      = addr + 2 * 75 := by
    rw [decode_encode_iff (by simp), hprod]
    exact haddr
  have hu32 : (addr + 2 * 75) % 2 ^ 32 = addr + 2 * 75 := by omega
  have hframe : (addr + 2 * 75) % 75 % 2 ^ 8 = (addr + 2 * 75) % 75 := by omega
  have hsecond : (addr + 2 * 75) / 75 % 60 % 2 ^ 8
      = (addr + 2 * 75) / 75 % 60 := by omega
  simp only [encode_cons, encode_nil] at hdigits
  unfold msfAddress msfBytes
  simp only [hu32, BitVec.toNat_ofNat, hframe, hsecond]
  rw [show 2 ^ 8 = 256 from rfl, hdigits, Nat.add_sub_cancel]

/-- `put_unaligned_be24` keeps the low 24 bits. -/
theorem getUnalignedBe24_eq {buf : Buffer} {i : Nat} (val : Nat)
    (h : [buf i, buf (i + 1), buf (i + 2)] = putUnalignedBe24 val) :
    getUnalignedBe24 buf i = val % 2 ^ 24 := by
  have hdigits := decode_encode [256, 256, 256] (val % 2 ^ 32)
  unfold putUnalignedBe24 at h
  simp only [List.cons.injEq, and_true] at h
  obtain ⟨hhigh, hmid, hlow⟩ := h
  have hle : val % 2 ^ 32 % 2 ^ 24 = val % 2 ^ 24 := by omega
  rw [← hle]
  refine Eq.trans ?_ hdigits
  unfold getUnalignedBe24
  rw [hhigh, hmid, hlow]
  simp only [BitVec.toNat_ofNat, encode_cons, Nat.shiftRight_eq_div_pow,
    Nat.div_div_eq_div_mul]
  rfl

/-- The reply to `READ_DISC_STRUCTURE`. -/
theorem doReadDiscStructure_sectors (lun : FsgLun) (cmnd buf : Buffer)
    (hcmnd : cmnd 7 = 0) :
    (doReadDiscStructure lun cmnd buf).2.2 = 2052 ∧
      startSector (doReadDiscStructure lun cmnd buf).2.1 = 0x030000 ∧
      endSector (doReadDiscStructure lun cmnd buf).2.1
        = (0x030000 + lun.numSectors) % 2 ^ 24 := by
  unfold doReadDiscStructure
  rw [if_neg (not_not.mpr hcmnd)]
  refine ⟨rfl, ?_, ?_⟩
  · exact getUnalignedBe24_eq 0x030000 rfl
  · exact getUnalignedBe24_eq _ rfl

/-! ## The condition -/

/-- `do_read_header` refuses a DVD. -/
theorem readHeaderSense_none {cmnd : Buffer}
    (h : readHeaderSense lun cmnd = none) : lun.cdAsDvd = false := by
  unfold readHeaderSense at h
  split_ifs at h with hmode
  exact Bool.eq_false_iff.mpr hmode

/-- What `fsg_lun_open` leaves for a CD-ROM image that it accepts. -/
theorem fsgLunOpen_cdrom (hcdrom : curlun.cdrom = true)
    (hopen : fsgLunOpen curlun size blkbits = (lun, 0)) :
    300 ≤ size >>> blkbits ∧ lun.numSectors = size >>> blkbits ∧
      (lun.cdAsDvd = true ↔ cdMaxMsfSectors ≤ size >>> blkbits) := by
  unfold fsgLunOpen at hopen
  simp only [hcdrom, if_true, Bool.true_and] at hopen
  split_ifs at hopen with hsmall
  · cases congrArg Prod.snd hopen
  · cases hopen
    refine ⟨by omega, rfl, ?_⟩
    simp

/-- The addresses of an accepted image are exact when its end sector fits 24
bits.  The limit of the other form is never reached. -/
theorem addressesExact_iff (hstore : StoresMsf store)
    (hcdrom : curlun.cdrom = true)
    (hopen : fsgLunOpen curlun size blkbits = (lun, 0)) :
    AddressesExact store lun ↔ size >>> blkbits < 2 ^ 24 - 0x030000 := by
  obtain ⟨-, hsectors, hdvd⟩ := fsgLunOpen_cdrom hcdrom hopen
  have hmax : cdMaxMsfSectors = 1113180 := by decide
  rw [← hsectors] at hdvd ⊢
  constructor
  · intro hexact
    by_contra hlarge
    have hmode : lun.cdAsDvd = true := hdvd.mpr (by omega)
    obtain ⟨-, hend, -⟩ := hexact.dvd hmode (fun _ => 0) (fun _ => 0) rfl
    obtain ⟨-, -, hwritten⟩ :=
      doReadDiscStructure_sectors lun (fun _ => 0) (fun _ => 0) rfl
    omega
  · intro hfits
    have hmsf : lun.cdAsDvd = false → ∀ addr ≤ lun.numSectors,
        msfAddress (store true addr) = addr := by
      intro hmode addr haddr
      have hcd : lun.numSectors < cdMaxMsfSectors := by
        by_contra hge
        rw [hdvd.mpr (by omega)] at hmode
        cases hmode
      rw [hstore addr (by omega)]
      exact msfAddress_msfBytes (by omega)
    constructor
    · intro hmode
      refine ⟨hmsf hmode, ?_⟩
      unfold leadOut
      rw [hmode, if_neg Bool.false_ne_true, Nat.mod_eq_of_lt (by omega)]
      exact hmsf hmode _ (Nat.le_refl _)
    · intro cmnd hsense
      exact hmsf (readHeaderSense_none hsense)
    · intro _ cmnd buf hcmnd
      obtain ⟨hlen, hstart, hend⟩ :=
        doReadDiscStructure_sectors lun cmnd buf hcmnd
      rw [hstart, hend, Nat.mod_eq_of_lt (by omega)]
      exact ⟨hlen, rfl, Nat.add_sub_cancel_left _ _⟩

/-- An image of 1113180 sectors, the smallest DVD. -/
theorem addressesExact_smallestDvd :
    AddressesExact (fun _ addr => msfBytes addr)
      (fsgLunOpen ⟨true, false, 0, none⟩ (1113180 <<< 11) 11).1 := by
  have hopen : fsgLunOpen ⟨true, false, 0, none⟩ (1113180 <<< 11) 11
      = (⟨true, true, 1113180, none⟩, 0) := by decide
  have hstore : StoresMsf fun _ addr => msfBytes addr := fun _ _ => rfl
  rw [hopen, addressesExact_iff hstore rfl hopen]
  decide

/-- An image of 16580608 sectors, the first one whose end sector needs 25
bits. -/
theorem endSector_wraps :
    ¬ AddressesExact (fun _ addr => msfBytes addr)
      (fsgLunOpen ⟨true, false, 0, none⟩ (16580608 <<< 11) 11).1 := by
  intro hexact
  obtain ⟨-, hend, -⟩ := hexact.dvd (by decide) (fun _ => 0) (fun _ => 0) rfl
  revert hend
  decide

end LonganPi.Cdrom
