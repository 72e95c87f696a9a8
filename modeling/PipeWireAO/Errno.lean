import Mathlib.Tactic.Common

/-!
# Error numbers

The functions of the repository answer an `int`: non-negative on success, the negative
of an error number on failure.
-/

namespace PipeWireAO

def ePerm : Int := 1

def eNoEnt : Int := 2

def eIo : Int := 5

/-- `E2BIG` -/
def eTooBig : Int := 7

def eAgain : Int := 11

def eNoMem : Int := 12

def eFault : Int := 14

def eBusy : Int := 16

def eExist : Int := 17

def eInval : Int := 22

def eNoSpc : Int := 28

def ePipe : Int := 32

def eLoop : Int := 40

def eNoData : Int := 61

def eProto : Int := 71

def eOverflow : Int := 75

def eMsgSize : Int := 90

def eNotSup : Int := 95

def eNoBufs : Int := 105

def eNotConn : Int := 107

def eAlready : Int := 114

def eStale : Int := 116

def eCanceled : Int := 125

end PipeWireAO
