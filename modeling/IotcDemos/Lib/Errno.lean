import Mathlib.Tactic

set_option autoImplicit false

/-! # Error numbers of the C library -/

namespace IotcDemos

def ENOENT : Int := 2
def EIO : Int := 5
def EAGAIN : Int := 11
def ENOMEM : Int := 12
def EBUSY : Int := 16
def ENODEV : Int := 19
def EINVAL : Int := 22
def EFBIG : Int := 27
def EMSGSIZE : Int := 122
def ENOTSUP : Int := 134

end IotcDemos
