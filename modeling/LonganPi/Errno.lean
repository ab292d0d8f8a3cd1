/-!
# Error codes

The kernel's error codes that the drivers return, negated as they return
them.
-/

namespace LonganPi

/-- `-ENOENT`. -/
def eNoent : Int := -2

/-- `-EINTR`. -/
def eIntr : Int := -4

/-- `-ENOMEM`. -/
def eNomem : Int := -12

/-- `-EFAULT`. -/
def eFault : Int := -14

/-- `-ENODEV`. -/
def eNodev : Int := -19

/-- `-EINVAL`. -/
def eInval : Int := -22

/-- `-EPIPE`. -/
def ePipe : Int := -32

/-- `-ENODATA`. -/
def eNodata : Int := -61

/-- `-ETIMEDOUT`. -/
def eTimedout : Int := -110

/-- `-ERESTARTSYS`, which the kernel keeps to itself. -/
def eRestartsys : Int := -512

end LonganPi
