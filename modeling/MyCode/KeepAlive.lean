import MyCode.Types

/-!
# Keep-alives

`ka_utl.c`: a keep-alive and the timer that it keeps in a clock.  The first
ticks of a linked timer are kept, not the ticks that are left.
-/

namespace MyCode.KeepAlive

/-- `KA_S` without its functions: the settings, whether it is attached to a
clock, and its timer if that is linked. -/
structure Ka where
  usIdle : USHORT
  usIntval : USHORT
  usMaxProbeCount : USHORT
  hVClockInstance : Bool
  usProbeCount : USHORT
  vclock : Option UINT
  deriving DecidableEq, Repr

variable (ka : Ka)

/-- `KA_Start`, which fails where the timer cannot be added. -/
def kaStart (addTimer : Bool) : Ka × BsStatus :=
  let ka := { ka with hVClockInstance := true, usProbeCount := 0, vclock := none }
  if ka.usIdle = 0 then
    (ka, .ok)
  else if addTimer then
    ({ ka with vclock := some (ka.usIdle.setWidth 32) }, .ok)
  else
    (ka, .err)

def kaStop : Ka :=
  { ka with vclock := none, usProbeCount := 0 }

def kaReset : Ka :=
  if ka.usIdle ≠ 0 then
    { ka with vclock := some (ka.usIdle.setWidth 32), usProbeCount := 0 }
  else
    { ka with vclock := none, usProbeCount := 0 }

theorem kaReset_usIdle : (kaReset ka).usIdle = ka.usIdle := by
  unfold kaReset
  split <;> rfl

/-- `ka_KeepAlive`, and whether it calls `pfKeepAliveFailed` rather than
`pfSendKeepAlive`. -/
def kaKeepAlive : Ka × Bool :=
  if ka.usMaxProbeCount ≤ ka.usProbeCount then
    ({ ka with vclock := none }, true)
  else
    ({ ka with usProbeCount := ka.usProbeCount + 1, vclock := some (ka.usIntval.setWidth 32) }, false)

end MyCode.KeepAlive
