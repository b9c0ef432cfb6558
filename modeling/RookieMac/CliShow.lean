import RookieMac.CliMacCommand
import RookieMac.Lib.Printing

/-!
# What the CLI shows

The `show` commands of `cli_mac_command.c` and the functions of `pi_comm_ssc.c` that print for them,
with the text they print to the character. `vlan_id` and `port_id` are printed as signed numbers.
-/

namespace RookieMac.Pi

open CMem Printing

def vlanAddressHeader : List Char := "Vlan\t MAC Address\t\t Type\t Interface \n".toList

/-- The loop that prints an address, two bytes a time. -/
def printMac (mac : Mac) : List Char :=
  (List.range 3).flatMap fun j =>
    hex2 (mac.toList.getD (2 * j) 0) ++ hex2 (mac.toList.getD (2 * j + 1) 0) ++ ".".toList

/-- The end of a line, from the type on. -/
def printType (isStatic : Bool) (portId : U32) : List Char :=
  if isStatic then
    "\t\tSTATIC\t GigabitEthernet 0/".toList ++ (decimal portId.toInt ++ " \n".toList)
  else "\t\tDYNAMIC\t GigabitEthernet 0/".toList ++ (decimal portId.toInt ++ "\n".toList)

def printRow (row : MacRow) : List Char :=
  decimal row.vlanId.toInt ++ " \t".toList
    ++ (printMac row.mac ++ printType row.isStatic row.portId)

def printTable (rows : List MacRow) : List Char := vlanAddressHeader ++ rows.flatMap printRow

/-- The lines of `pi_show_vlan_mac`. -/
def piShowVlanMac (numVlan : U32) (db : PiDbMacInfo) : List MacRow :=
  (List.finRange hashSize).flatMap fun i =>
    ((db.staticMacTblHead i).filter fun assist => assist.vlanId = numVlan).map (macRow true)
      ++ ((db.dynMacTblHead i).filter fun assist => assist.vlanId = numVlan).map (macRow false)

/-- The lines of `pi_show_static_mac`. -/
def piShowStaticMac (db : PiDbMacInfo) : List MacRow :=
  (List.finRange hashSize).flatMap fun i => (db.staticMacTblHead i).map (macRow true)

def piShowMacAgetime (db : PiDbMacInfo) : List Char :=
  "Aging time    : ".toList ++ decimal db.ageTime.toInt ++ " seconds \n".toList

/-- `pi_show_mac_count`, of the numbers it reads. -/
def printMacCount (counts : U32 × U32 × U32) : List Char :=
  "Dynamic Address Count : ".toList ++ decimal counts.1.toInt ++ "\n".toList
    ++ ("Static  Address Count : ".toList ++ decimal counts.2.1.toInt ++ "\n".toList)
    ++ ("Total Mac Addresses   : ".toList ++ decimal counts.2.2.toInt ++ "\n".toList)

/-! ## The commands -/

def execShowRookieMacTableCmd (db : PiDbMacInfo) : List Char := printTable (piShowAllMac db)

/-- A number that is no VLAN is refused; the message does not go to the CLI. -/
def execShowRookieMacVlanNumCmd (vlanNum : U32) (db : PiDbMacInfo) : List Char :=
  if vlanNum.toInt < 1 ∨ vlanNum.toInt > vlanMaxSize then []
  else printTable (piShowVlanMac vlanNum db)

def execShowRookieMacCountCmd (db : PiDbMacInfo) : List Char := printMacCount (piShowMacCount db)

def execShowRookieMacStaticCmd (db : PiDbMacInfo) : List Char := printTable (piShowStaticMac db)

def execShowRookieMacAgetimeCmd (db : PiDbMacInfo) : List Char := piShowMacAgetime db

end RookieMac.Pi
