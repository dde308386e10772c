import Lbcd.Interaction.CText
import Lbcd.Interaction.Pack

namespace Lbcd

open ByteOrder CText Pack

def maxMesg : ℕ := 2048

def maxServices : ℕ := 5

def lbcdVersion : UInt16 := 3

def opLbinfo : UInt16 := 1

/-- Status codes of the packet header. -/
inductive LbcdStatus where
  | request
  | ok
  | error
  | version
  | protocol
  | unknownOp
  deriving DecidableEq

def LbcdStatus.code : LbcdStatus → UInt16
  | .request => 0
  | .ok => 1
  | .error => 2
  | .version => 3
  | .protocol => 4
  | .unknownOp => 5

/-- Size of lbcd_name_type, a service name on the wire. -/
def nameSize : ℕ := 32

def headerSize : ℕ := 8

def serviceSize : ℕ := 8

/-- sizeof(struct lbcd_reply): no member of it needs padding. -/
def replySize : ℕ := 84

structure LbcdService where
  hostWeight : UInt32
  hostIncr : UInt32
  deriving DecidableEq,Inhabited

structure LbcdHeader where
  version : UInt16
  id : UInt16
  op : UInt16
  status : UInt16
  deriving DecidableEq,Inhabited

/-- The reply as it lies in memory: the words hold what was stored in them, mostly
numbers already in network order. -/
structure LbcdReply where
  h : LbcdHeader
  bootTime : UInt32
  currentTime : UInt32
  userMtime : UInt32
  l1 : UInt16
  l5 : UInt16
  l15 : UInt16
  totUsers : UInt16
  uniqUsers : UInt16
  onConsole : UInt8
  reserved : UInt8
  tmpFull : UInt8
  tmpdirFull : UInt8
  pad : UInt8
  services : UInt8
  weights : Vector LbcdService (maxServices+1)
  deriving DecidableEq,Inhabited

/-- Index of a weight/increment pair of the reply. -/
abbrev Slot := Fin (maxServices+1)

def LbcdHeader.bytes (e : Endian) (h : LbcdHeader) : List UInt8 :=
  store16 e h.version++store16 e h.id++store16 e h.op++store16 e h.status

def LbcdService.bytes (e : Endian) (w : LbcdService) : List UInt8 :=
  store32 e w.hostWeight++store32 e w.hostIncr

namespace LbcdReply

def slot (lb : LbcdReply) (i : Slot) : LbcdService := lb.weights[i]

def setSlot (lb : LbcdReply) (i : Slot) (w : LbcdService) : LbcdReply :=
  { lb with weights := lb.weights.set i w }

def setWeight (lb : LbcdReply) (i : Slot) (w : UInt32) : LbcdReply :=
  lb.setSlot i { lb.slot i with hostWeight := w }

def setIncr (lb : LbcdReply) (i : Slot) (n : UInt32) : LbcdReply :=
  lb.setSlot i { lb.slot i with hostIncr := n }

/-- The fixed part of the reply, before the weights. -/
def fixedBytes (e : Endian) (lb : LbcdReply) : List UInt8 :=
  lb.h.bytes e++(store32 e lb.bootTime++store32 e lb.currentTime++store32 e lb.userMtime++
    (store16 e lb.l1++store16 e lb.l5++store16 e lb.l15++store16 e lb.totUsers++
      store16 e lb.uniqUsers++
      [lb.onConsole,lb.reserved,lb.tmpFull,lb.tmpdirFull,lb.pad,lb.services]))

/-- The object representation of struct lbcd_reply. -/
def bytes (e : Endian) (lb : LbcdReply) : List UInt8 :=
  lb.fixedBytes e++lb.weights.toList.flatMap (LbcdService.bytes e)

@[simp] theorem slot_setSlot_self (lb : LbcdReply) (i : Slot) (w : LbcdService) :
    (lb.setSlot i w).slot i=w := by simp [slot,setSlot]

theorem slot_setSlot (lb : LbcdReply) (i j : Slot) (w : LbcdService) :
    (lb.setSlot i w).slot j=if i=j then w else lb.slot j := by
  simp [slot,setSlot,Vector.getElem_set,Fin.ext_iff]

@[simp] theorem setSlot_setSlot (lb : LbcdReply) (i : Slot) (v w : LbcdService) :
    (lb.setSlot i v).setSlot i w=lb.setSlot i w := by simp [setSlot]

@[simp] theorem setSlot_slot (lb : LbcdReply) (i : Slot) : lb.setSlot i (lb.slot i)=lb := by
  simp [setSlot,slot]

@[simp] theorem slot_setWeight_self (lb : LbcdReply) (i : Slot) (w : UInt32) :
    (lb.setWeight i w).slot i={ lb.slot i with hostWeight := w } := slot_setSlot_self _ _ _

@[simp] theorem slot_setIncr_self (lb : LbcdReply) (i : Slot) (n : UInt32) :
    (lb.setIncr i n).slot i={ lb.slot i with hostIncr := n } := slot_setSlot_self _ _ _

theorem setIncr_setWeight (lb : LbcdReply) (i : Slot) (w n : UInt32) :
    (lb.setWeight i w).setIncr i n=lb.setSlot i ⟨w,n⟩ := by
  rw [setIncr,slot_setWeight_self,setWeight,setSlot_setSlot]

@[simp] theorem fixedBytes_length (e : Endian) (lb : LbcdReply) :
    (lb.fixedBytes e).length=36 := by
  simp [fixedBytes,LbcdHeader.bytes]

theorem serviceBytes_length (e : Endian) (w : LbcdService) : (w.bytes e).length=serviceSize := by
  rw [LbcdService.bytes,List.length_append,store32_length,store32_length]
  rfl

theorem bytes_length (e : Endian) (lb : LbcdReply) : (lb.bytes e).length=replySize := by
  rw [bytes,List.length_append,length_flatMap_block (serviceBytes_length e),fixedBytes_length]
  have h : lb.weights.toList.length=maxServices+1 := by simp
  rw [h]
  rfl

end LbcdReply
end Lbcd
