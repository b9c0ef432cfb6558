import RookieMac.Downlink

/-!
# The way up

What SSA makes of an address the chip learns or forgets (`ssa_mac_init.c`), and what SSD makes of
SSA's message (`ssd_mac_init.c`). A message is its entry behind a header; SSA does not write the id
in the header, which nobody reads (`word`). An allocation's outcome is `mem`.
-/

namespace RookieMac

open CMem

namespace Ssa

/-- `bcm_l2_addr_t`, the fields the callback of the SDK reads. -/
structure BcmL2Event where
  flags : U32
  mac : Mac
  vid : BitVec 16
  modid : U32
  port : U32
  deriving DecidableEq

/-- What the callback uses and the source does not hold. The conversion of a chip's port stores
nothing where it fails. -/
structure ClbkEnv where
  bcmL2Static : U32
  ssaMacGetPhyidFromChipPort : U32 → U32 → Option U32
  word : U32

variable (env : ClbkEnv)

def ssaMsgidMacUpdate : U32 := (1 <<< 16 ||| 1 <<< 8 ||| 0x80) ||| 0x21

/-- The `port_id` of the notification, which is zero before the conversion. -/
def convertPortToUsr (l2addr : BcmL2Event) : U32 :=
  (env.ssaMacGetPhyidFromChipPort l2addr.modid l2addr.port).getD 0

def ssaSendToSsd (mem : Bool) (data : PiMacEntry) : List Ssc.SsInfo :=
  if mem then
    [{ msgid := ssaMsgidMacUpdate, msgVer := 1, concurrent := 1, sender := .ssa, reciver := .ssd,
       dstType := .selfNode, payload := msgInfo env.word data.bytes }]
  else []

/-- The entry of `mac_clbk`: `flags` is the low byte of `insert`. -/
def clbkEntry (l2addr : BcmL2Event) (insert : U32) : PiMacEntry where
  flags := insert.setWidth 8
  mac := l2addr.mac
  vlanId := l2addr.vid.setWidth 32
  addrType := macFlagDyn
  portId := convertPortToUsr env l2addr

/-- A static address is not notified. -/
def macClbk (mem : Bool) (l2addr : BcmL2Event) (insert : U32) : List Ssc.SsInfo :=
  if l2addr.flags &&& env.bcmL2Static ≠ 0 then []
  else ssaSendToSsd env mem (clbkEntry env l2addr insert)

end Ssa

namespace Ssd

def ssdMsgidMacUpdate : U32 := (1 <<< 16 ||| 1 <<< 8 ||| 0x40) ||| 0x21

/-- The bytes sent are as many as the header says. -/
def ssdSendMsgSsc (mem : Bool) (msgInfo : List U8) : List Ssc.SsInfo :=
  if mem then
    [{ msgid := ssdMsgidMacUpdate, msgVer := 1, concurrent := 1, sender := .ssd, reciver := .ssc,
       dstType := .selfNode, payload := recvMsg msgInfo }]
  else []

/-- The port is converted in place. -/
def ssdMacRecvSsaMsg (ssPhyidFe2ce : U32 → U32) (mem : Bool) (payload : List U8) :
    List Ssc.SsInfo :=
  let data := PiMacEntry.read (msgBody payload)
  let payload := writeU32 20 (ssPhyidFe2ce data.portId) payload
  ssdSendMsgSsc mem payload

end Ssd

end RookieMac
