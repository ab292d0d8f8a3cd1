import LonganPi.Errno
import Mathlib.Data.BitVec
import Mathlib.Logic.Function.Basic

/-!
# CD-ROM images of the mass storage gadget

The parts of `f_mass_storage.c` and `storage_common.c` that decide how the
addresses of an image are sent.  `fsg_lun_open` takes an image as CD, or from
`CD_MAX_MSF_SECTORS` on as DVD.  A CD has its addresses in minutes, seconds and
frames, a DVD has them as 24-bit sectors in the disc structure.

* `fsgLunOpen` is the part of `fsg_lun_open` about the size of the image.
* `leadOut` is what `do_read_toc` stores for the lead-out, and
  `readHeaderSense` the refusals of `do_read_header`.
* `doReadDiscStructure` is `do_read_disc_structure`.

`store_cdrom_address` belongs to the kernel that the patch is made for.  It is
the parameter `store`: the four bytes for an address, in MSF form or not.
-/

namespace LonganPi.Cdrom

/-! ## The image -/

/-- `CD_MAX_MSF_SECTORS`. -/
def cdMaxMsfSectors : Nat := 255 * 59 * 74 - 2 * 75

/-- `-ETOOSMALL`. -/
def eToosmall : Int := -525

/-- The sense data that the modelled commands set. -/
inductive SenseData where
  /-- `SS_INVALID_COMMAND`. -/
  | invalidCommand
  /-- `SS_INVALID_FIELD_IN_CDB`. -/
  | invalidFieldInCdb
  deriving DecidableEq, Repr

/-- The fields of `struct fsg_lun` that the modelled functions use. -/
structure FsgLun where
  cdrom : Bool
  cdAsDvd : Bool
  numSectors : Nat
  senseData : Option SenseData
  deriving DecidableEq, Repr

/-- `fsg_lun_open` on a file of `size` bytes in blocks of `2^blkbits`.  A file
that is too small leaves the LUN as it was. -/
def fsgLunOpen (curlun : FsgLun) (size blkbits : Nat) : FsgLun × Int :=
  let numSectors := size >>> blkbits
  let minSectors := if curlun.cdrom then 300 else 1
  if numSectors < minSectors then (curlun, eToosmall)
  else
    ({ curlun with
        cdAsDvd := curlun.cdrom && decide (numSectors ≥ cdMaxMsfSectors)
        numSectors }, 0)

/-! ## Bytes -/

/-- The bytes behind `bh->buf`, or those of a command, by position. -/
abbrev Buffer := Nat → BitVec 8

/-- `memset(buf, 0, n)`. -/
def Buffer.clear (buf : Buffer) (n : Nat) : Buffer :=
  fun i => if i < n then 0 else buf i

/-- Store bytes from position `i` on. -/
def Buffer.put (buf : Buffer) (i : Nat) : List (BitVec 8) → Buffer
  | [] => buf
  | b :: bs => Buffer.put (Function.update buf i b) (i + 1) bs

/-- `put_unaligned_be16`. -/
def putUnalignedBe16 (val : Nat) : List (BitVec 8) :=
  [BitVec.ofNat 8 (val >>> 8), BitVec.ofNat 8 val]

/-- `put_unaligned_be24`.  Its argument is a `u32`. -/
def putUnalignedBe24 (val : Nat) : List (BitVec 8) :=
  let val := val % 2 ^ 32
  [BitVec.ofNat 8 (val >>> 16), BitVec.ofNat 8 (val >>> 8), BitVec.ofNat 8 val]

/-! ## Commands -/

/-- The lead-out address that `do_read_toc` stores, at both places.  The
address argument of `store_cdrom_address` is a `u32`. -/
def leadOut (store : Bool → Nat → List (BitVec 8)) (curlun : FsgLun)
    (msf : Bool) : List (BitVec 8) :=
  if curlun.cdAsDvd then store msf 157350
  else store msf (curlun.numSectors % 2 ^ 32)

/-- The checks at the start of `do_read_header`.  With `none` it goes on to
send an address. -/
def readHeaderSense (curlun : FsgLun) (cmnd : Buffer) : Option SenseData :=
  if curlun.cdAsDvd then some .invalidCommand
  else if cmnd 1 &&& ~~~0x02 ≠ 0 then some .invalidFieldInCdb
  else none

/-- `do_read_disc_structure`: the LUN, the buffer and the result. -/
def doReadDiscStructure (curlun : FsgLun) (cmnd buf : Buffer) :
    FsgLun × Buffer × Int :=
  if cmnd 7 ≠ 0x00 then
    ({ curlun with senseData := some .invalidFieldInCdb }, buf, eInval)
  else
    let buf := buf.clear 2052
    let buf := buf.put 0 (putUnalignedBe16 2050)
    -- the structure starts behind its size and 2 reserved bytes
    let buf := buf.put (4 + 0) [0x01]
    let buf := buf.put (4 + 1) [0x0F]
    let buf := buf.put (4 + 2) [0x01]
    let buf := buf.put (4 + 5) (putUnalignedBe24 0x030000)
    let buf := buf.put (4 + 9) (putUnalignedBe24 (0x030000 + curlun.numSectors))
    (curlun, buf, 2052)

end LonganPi.Cdrom
