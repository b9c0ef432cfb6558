import RookieMac.Lib.CMem
import RookieMac.Lib.Chained
import RookieMac.Lib.Framing

/-!
# The definitions the programs share

`ss_public.h`: the constants, the message ids, the structures with their layout in a message, and
the hash of a (mac, vlan) key. Words are stored low byte first; the padding of a structure and the
list node inside `pi_mac_entry_t`, which no receiver reads, are written as zeros.
-/

namespace RookieMac

open CMem

abbrev portNum : ℕ := 24

abbrev macLen : ℕ := 6

abbrev vlanMaxSize : ℤ := 4094

abbrev vlanMinSize : ℤ := 1

abbrev hashSize : ℕ := 1024

abbrev bufSize : ℕ := 1024

def ERR : ℤ := -1

def SUCC : ℤ := 0

abbrev Mac := Vector U8 macLen

inductive PiMacMsgid
  | macAddAddr | macClearDyn | clearVlanMac | clearInterDyn | macInterLearn | macAgetime
  | dsStart | dsIng | dsEnd
  deriving DecidableEq

abbrev piMsgidMacIdNum : ℕ := 9

inductive SscMacMsgid
  | macAddAddr | macClearDyn | clearVlanMac | clearInterDyn | macInterLearn | macAgetime
  | macUpStart | macUpIng | macUpEnd | macAddrNotify | macFetch
  deriving DecidableEq

abbrev sscMsgidMacIdNum : ℕ := 11

inductive SsdMacMsgid
  | macAddAddr | macClearDyn | clearVlanMac | clearInterDyn | macInterLearn | macAgetime
  deriving DecidableEq

abbrev ssdMsgidMacIdNum : ℕ := 6

def PiMacMsgid.val (m : PiMacMsgid) : U32 := BitVec.ofNat 32 m.ctorIdx

def SscMacMsgid.val (m : SscMacMsgid) : U32 := BitVec.ofNat 32 m.ctorIdx

def SsdMacMsgid.val (m : SsdMacMsgid) : U32 := BitVec.ofNat 32 m.ctorIdx

def sscConf : U32 := 1

def sscStatic : U32 := 2

def sscDyn : U32 := 3

/-- `port_status_t` values the programs set. -/
def macFwdLearn : U32 := 3

def macUnfwdUnlearn : U32 := 0

def staticType : U32 := 1 <<< 6

def macFlagDyn : U32 := 0 <<< 6

/-! ## The structures -/

/-- `pi_mac_entry_t`. The mac and the vlan are the key; the list node is the entry's place in its
chain. -/
structure PiMacEntry where
  mac : Mac
  flags : U8
  vlanId : U32
  portId : U32
  addrType : U32
  deriving DecidableEq

structure BaseStaticMac where
  mac : Mac
  vlanId : U32
  portId : U32
  deriving DecidableEq

structure ConfInfo where
  ageTime : U32
  portStatus : Fin (portNum + 1) → U32

def readMac (bs : List U8) : Mac := Vector.ofFn fun i => bs.getD i 0

/-- `sizeof(pi_mac_entry_t)` and what of it precedes the list node. -/
abbrev sizeofPiMacEntry : ℕ := 40

def PiMacEntry.bytes (e : PiMacEntry) : List U8 :=
  e.mac.toList ++ ([e.flags, 0] ++ (toBytes e.vlanId ++ (toBytes e.portId ++ (toBytes e.addrType
    ++ List.replicate 20 0))))

def PiMacEntry.read (bs : List U8) : PiMacEntry where
  mac := readMac bs
  flags := bs.getD 6 0
  vlanId := readU32 bs 8
  portId := readU32 bs 12
  addrType := readU32 bs 16

def BaseStaticMac.bytes (b : BaseStaticMac) : List U8 :=
  b.mac.toList ++ ([0, 0] ++ (toBytes b.vlanId ++ toBytes b.portId))

def BaseStaticMac.read (bs : List U8) : BaseStaticMac where
  mac := readMac bs
  vlanId := readU32 bs 8
  portId := readU32 bs 12

def ConfInfo.bytes (c : ConfInfo) : List U8 :=
  toBytes c.ageTime ++ wordsBytes (List.ofFn c.portStatus)

def ConfInfo.read (bs : List U8) : ConfInfo where
  ageTime := readU32 bs 0
  portStatus := fun i => readU32 bs (4 + 4 * i)

def interLearnBytes (portId : Fin (portNum + 1) → U32) (status : U32) : List U8 :=
  wordsBytes (List.ofFn portId) ++ toBytes status

/-! ## Reading a structure back -/

section RoundTrip

theorem readMac_append (m : Mac) (rest : List U8) : readMac (m.toList ++ rest) = m := by
  apply Vector.ext
  intro i hi
  simp [readMac, List.getD_eq_getElem?_getD, List.getElem?_append]

/-- A structure is read back whatever follows it in memory. -/
@[simp] theorem PiMacEntry.read_bytes (e : PiMacEntry) (rest : List U8) :
    PiMacEntry.read (e.bytes ++ rest) = e := by
  simp only [PiMacEntry.read, PiMacEntry.bytes, List.append_assoc]
  rw [readMac_append, readU32_skip _ _ 2 (by simp), readU32_skip _ _ 0 (by simp),
    readU32_toBytes, readU32_skip _ _ 6 (by simp), readU32_skip _ _ 4 (by simp),
    readU32_skip _ _ 0 (by simp), readU32_toBytes, readU32_skip _ _ 10 (by simp),
    readU32_skip _ _ 8 (by simp), readU32_skip _ _ 4 (by simp), readU32_skip _ _ 0 (by simp),
    readU32_toBytes]
  simp [List.getD_eq_getElem?_getD]

@[simp] theorem PiMacEntry.read_bytes_self (e : PiMacEntry) : PiMacEntry.read e.bytes = e := by
  simpa using e.read_bytes []

@[simp] theorem BaseStaticMac.read_bytes (b : BaseStaticMac) (rest : List U8) :
    BaseStaticMac.read (b.bytes ++ rest) = b := by
  simp only [BaseStaticMac.read, BaseStaticMac.bytes, List.append_assoc]
  rw [readMac_append, readU32_skip _ _ 2 (by simp), readU32_skip _ _ 0 (by simp),
    readU32_toBytes, readU32_skip _ _ 6 (by simp), readU32_skip _ _ 4 (by simp),
    readU32_skip _ _ 0 (by simp), readU32_toBytes]

@[simp] theorem BaseStaticMac.read_bytes_self (b : BaseStaticMac) :
    BaseStaticMac.read b.bytes = b := by
  simpa using b.read_bytes []

@[simp] theorem ConfInfo.read_bytes (c : ConfInfo) (rest : List U8) :
    ConfInfo.read (c.bytes ++ rest) = c := by
  simp only [ConfInfo.read, ConfInfo.bytes, List.append_assoc]
  rw [readU32_toBytes]
  congr 1
  funext i
  rw [readU32_skip _ _ (4 * i) (by simp), readU32_wordsBytes _ _ _ (by simp),
    List.getElem_ofFn]

/-- What `memset` to zero leaves of an entry. -/
def PiMacEntry.zero : PiMacEntry := ⟨Vector.replicate macLen 0, 0, 0, 0, 0⟩

theorem PiMacEntry.read_zeroFirst (bs : List U8) :
    PiMacEntry.read (zeroFirst sizeofPiMacEntry bs) = .zero := by
  have hz : zeroFirst sizeofPiMacEntry bs = PiMacEntry.zero.bytes ++ bs.drop sizeofPiMacEntry := by
    rfl
  rw [hz, PiMacEntry.read_bytes]

end RoundTrip

/-! ## Messages -/

/-- The message with header `msg_type`, `msg_len = payload + header` and the payload. -/
def msgInfo (msgType : U32) (msg : List U8) : List U8 :=
  toBytes msgType ++ (toBytes (BitVec.ofNat 32 (msg.length + 8)) ++ msg)

def msgType (m : List U8) : U32 := readU32 m 0

def msgLen (m : List U8) : U32 := readU32 m 4

def msgBody (m : List U8) : List U8 := m.drop 8

/-- The message at the start of a buffer: as many bytes as its header says. -/
def recvMsg (buff : List U8) : List U8 := buff.take (msgLen buff).toNat

@[simp] theorem length_msgInfo (ty : U32) (msg : List U8) :
    (msgInfo ty msg).length = msg.length + 8 := by
  simp only [msgInfo, List.length_append, length_toBytes]
  omega

@[simp] theorem msgLen_msgInfo (ty : U32) (msg rest : List U8) :
    msgLen (msgInfo ty msg ++ rest) = BitVec.ofNat 32 (msg.length + 8) := by
  rw [msgLen, msgInfo, List.append_assoc, readU32_skip _ _ 0 (by rw [length_toBytes]),
    List.append_assoc, readU32_toBytes]

theorem recvMsg_msgInfo (ty : U32) (msg rest : List U8) (h : (msgInfo ty msg).length ≤ bufSize) :
    recvMsg (msgInfo ty msg ++ rest) = msgInfo ty msg := by
  have hb : bufSize = 1024 := rfl
  rw [length_msgInfo] at h
  rw [recvMsg, msgLen_msgInfo, BitVec.toNat_ofNat, Nat.mod_eq_of_lt (by omega),
    List.take_left' (length_msgInfo ty msg)]

@[simp] theorem msgType_msgInfo (ty : U32) (msg rest : List U8) :
    msgType (msgInfo ty msg ++ rest) = ty := by
  rw [msgType, msgInfo, List.append_assoc, readU32_toBytes]

@[simp] theorem msgBody_msgInfo (ty : U32) (msg rest : List U8) :
    msgBody (msgInfo ty msg ++ rest) = msg ++ rest := by
  rw [msgBody, msgInfo, ← List.append_assoc, List.append_assoc,
    List.drop_left' (by simp)]

@[simp] theorem msgType_msgInfo_self (ty : U32) (msg : List U8) : msgType (msgInfo ty msg) = ty := by
  simpa using msgType_msgInfo ty msg []

@[simp] theorem msgBody_msgInfo_self (ty : U32) (msg : List U8) : msgBody (msgInfo ty msg) = msg := by
  simpa using msgBody_msgInfo ty msg []

/-! ## The hash -/

/-- Which end of a word a byte array starts at. -/
inductive ByteOrder
  | little | big
  deriving DecidableEq

/-- `hash_function`, one text in hash_tab_oper.c and ssc_db_manger.c. `memcpy` sets two of the
bytes of `hmac`; `rest` is what the other two hold. -/
def hashFunction (order : ByteOrder) (rest : BitVec 16) (mac : Mac) (vid : U32) : Fin hashSize :=
  let lmac : U32 := match order with
    | .little => ofBytes mac[2] mac[3] mac[4] mac[5]
    | .big => ofBytes mac[5] mac[4] mac[3] mac[2]
  let hmac : U32 := match order with
    | .little => rest ++ (mac[1] ++ mac[0])
    | .big => (mac[0] ++ mac[1]) ++ rest
  let hash := vid ^^^ hmac ^^^ lmac
  ⟨hash.toNat % hashSize, Nat.mod_lt _ (by decide)⟩

/-- The bucket as a function of the key. -/
abbrev HashFn := Mac → U32 → Fin hashSize

/-! ## The tables -/

/-- `struct hlist_head [HASH_SIZE]`: the chains, each from its first node on. -/
abbrev HashTbl := Chained.Table hashSize PiMacEntry

abbrev Key := Mac × U32

def PiMacEntry.key (e : PiMacEntry) : Key := (e.mac, e.vlanId)

def setPort (port : U32) (assist : PiMacEntry) : PiMacEntry := { assist with portId := port }

@[simp] theorem portId_setPort (port : U32) (x : PiMacEntry) : (setPort port x).portId = port := rfl

@[simp] theorem key_setPort (port : U32) (x : PiMacEntry) : (setPort port x).key = x.key := rfl

def layout (hash : HashFn) : Chained.Layout hashSize PiMacEntry Key U32 where
  idx := fun k => hash k.1 k.2
  key := PiMacEntry.key
  val := PiMacEntry.portId

end RookieMac
