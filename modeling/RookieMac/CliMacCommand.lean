import RookieMac.PiCommSsc

/-!
# The CLI commands

`cli_mac_command.c`: a command writes its message to SSC (`pi_send_msg_ssc`) and then changes PI's
own database (`pi_update_local_db`). The arguments are what the command line parser stored.
-/

namespace RookieMac.Pi

open CMem

/-- A command's effect: PI's database, and the message written to SSC before it changes. -/
abbrev Exec := PiDbMacInfo → PiDbMacInfo × List (List U8)

variable (hash : HashFn)

def sendAndUpdate (mem : Bool) (type : PiMacMsgid) (data : List U8) : Exec := fun db =>
  (piUpdateLocalDb hash mem type data db, [piSendMsgSsc type data])

def execClearRookieMacDynamicCmd : Exec := sendAndUpdate hash true .macClearDyn []

def execClearRookieMacVlanNumCmd (vlanNum : U32) : Exec := fun db =>
  if vlanNum.toInt < vlanMinSize ∨ vlanNum.toInt > vlanMaxSize then (db, [])
  else sendAndUpdate hash true .clearVlanMac (toBytes vlanNum) db

def execClearRookieMacInterfaceNumCmd (numInter : U32) : Exec :=
  sendAndUpdate hash true .clearInterDyn (toBytes (numInter ||| (0 <<< 16)))

/-- The status of a learn text, where it has one. -/
def learnStatus (buff : List U8) : Option U32 :=
  if strncmp 6 buff (chars "enable") = 0 then some macFwdLearn
  else if strncmp 7 buff (chars "disable") = 0 then some macUnfwdUnlearn
  else none

/-- The buffer the text is copied to, its last byte overwritten. -/
def learnBuff (arg : List U8) : List U8 := arg.take 31 ++ [0]

/-- For another text `status` is not set: `stack` is what it holds. -/
def cfgRookieMacLearnCmd (stack : U32) (arg : List U8) : Exec := fun db =>
  let buff := learnBuff arg
  let status := (learnStatus buff).getD stack
  (piUpdateLocalDb hash true .macInterLearn (cstr buff ++ [0]) db,
    [piSendMsgSsc .macInterLearn (toBytes status)])

def cfgRookieMacTableAgetimeNumCmd (ageTime : U32) : Exec :=
  sendAndUpdate hash true .macAgetime (toBytes ageTime)

/-- `mem` is the outcome of the allocation in `pi_local_set_static_addr`. -/
def cfgRookieMacTableStaticCmd (mem : Bool) (tmp : BaseStaticMac) : Exec :=
  sendAndUpdate hash mem .macAddAddr tmp.bytes

end RookieMac.Pi
