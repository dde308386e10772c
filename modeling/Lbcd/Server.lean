import Lbcd.Weight

namespace Lbcd

open Interaction CText ByteOrder

/-- Both words of one pair from host to network order. -/
def hostToNetwork (e : Endian) (lb : LbcdReply) (offset : ℕ) : Prog Server LbcdReply :=
  if h : offset < maxServices+1 then
    let w := lb.slot ⟨offset,h⟩
    return lb.setSlot ⟨offset,h⟩ ⟨htonl e w.hostWeight,htonl e w.hostIncr⟩
  else fault (.badSlot offset)

/-- The loop over the requested services; the first of them has the given number. -/
def setRequested (e : Endian) (g : WeightGlobals) :
    ℕ → List CStr → LbcdReply → Prog Server LbcdReply
  | _,[],lb => return lb
  | i,name :: names,lb => do
    let lb ← lbcdSetweight g lb i name
    let lb ← hostToNetwork e lb i
    setRequested e g (i+1) names lb

def lbcdSetLoad (e : Endian) (g : WeightGlobals) (lb : LbcdReply) (services : List CStr) :
    Prog Server LbcdReply := do
  let lb := { lb with pad := 0, services := UInt8.ofNat services.length }
  let lb ← lbcdSetweight g lb 0 defaultName
  let sentinel : Bool ← ssys (.access .sentinel)
  let lb := if sentinel then lb.setWeight 0 (UInt32.ofInt (-1)) else lb
  let lb ← hostToNetwork e lb 0
  setRequested e g 1 services lb

/-- The largest weight that fits, for servers that only read the one-minute load. -/
def saturate16 (w : UInt32) : UInt16 :=
  if w.toNat > 65535 then 65535 else UInt16.ofNat w.toNat

def lbcdProto2Convert (e : Endian) (lb : LbcdReply) : LbcdReply :=
  let weightval := saturate16 (ntohl e (lb.slot 0).hostWeight)
  { lb with
    l1 := htons e weightval
    l5 := htons e weightval
    l15 := htons e weightval
    totUsers := 0
    uniqUsers := 0 }

/-- A load average in hundredths, as far as 16 bits hold it. -/
def loadField (l : ℚ) : UInt16 := UInt16.ofInt (truncate (l*100))

def lbcdPackInfo (e : Endian) (g : WeightGlobals) (lb : LbcdReply) (protocol : UInt16)
    (services : List CStr) (simple : Bool) (cache : UserCache) :
    Prog Server (LbcdReply × UserCache) := do
  let locals : PackLocals ← ssys .stackLocals
  -- Timestamps.
  let bt : Option ℤ ← Prog.lift (I := Server) .kernelGetboottime
  let lb := { lb with bootTime := htonl e (UInt32.ofInt (bt.getD locals.bt)) }
  let ct : ℤ ← ssys .time
  let lb := { lb with currentTime := htonl e (UInt32.ofInt ct) }
  -- Load.
  let loads : Loads ← Prog.lift (I := Server) .kernelGetload
  let lb := { lb with
    l1 := htons e (loadField (loads.l1.getD locals.l1))
    l5 := htons e (loadField (loads.l5.getD locals.l5))
    l15 := htons e (loadField (loads.l15.getD locals.l15)) }
  -- Users.
  let users : UserStats × UserCache ← Prog.lift (I := Server) (.getUserStats cache)
  let lb := { lb with
    totUsers := htons e (UInt16.ofInt users.1.total)
    uniqUsers := htons e (UInt16.ofInt users.1.uniq)
    onConsole := UInt8.ofInt users.1.onConsole
    userMtime := htonl e (UInt32.ofInt users.1.userMtime) }
  -- Additional fields.
  let lb := { lb with reserved := 0 }
  let tmp : ℤ ← Prog.lift (I := Server) (.tmpFull .tmp)
  let lb := { lb with tmpFull := UInt8.ofInt tmp }
  let tmpdir : ℤ ← Prog.lift (I := Server) (.tmpFull .pTmpdir)
  let lb := { lb with tmpdirFull := UInt8.ofInt tmpdir }
  let lb ← lbcdSetLoad e g lb services
  -- Backward compatibility.
  if simple=false ∧ protocol < 3 then return (lbcdProto2Convert e lb,users.2)
  else return (lb,users.2)

/-- What lbcd_pack_info has assigned by the time it weighs the services. -/
def packedFields (e : Endian) (lb : LbcdReply) (locals : PackLocals) (bt : Option ℤ) (ct : ℤ)
    (loads : Loads) (users : UserStats) (tmp tmpdir : ℤ) : LbcdReply :=
  { lb with
    bootTime := htonl e (UInt32.ofInt (bt.getD locals.bt))
    currentTime := htonl e (UInt32.ofInt ct)
    l1 := htons e (loadField (loads.l1.getD locals.l1))
    l5 := htons e (loadField (loads.l5.getD locals.l5))
    l15 := htons e (loadField (loads.l15.getD locals.l15))
    totUsers := htons e (UInt16.ofInt users.total)
    uniqUsers := htons e (UInt16.ofInt users.uniq)
    onConsole := UInt8.ofInt users.onConsole
    userMtime := htonl e (UInt32.ofInt users.userMtime)
    reserved := 0
    tmpFull := UInt8.ofInt tmp
    tmpdirFull := UInt8.ofInt tmpdir }

/-- The end of lbcd_pack_info, once the host has answered. -/
def packServices (e : Endian) (g : WeightGlobals) (protocol : UInt16) (services : List CStr)
    (simple : Bool) (cache : UserCache) (lb : LbcdReply) : Prog Server (LbcdReply × UserCache) := do
  let lb ← lbcdSetLoad e g lb services
  if simple=false ∧ protocol < 3 then return (lbcdProto2Convert e lb,cache)
  else return (lb,cache)

/-- Seven calls, whose outcomes are stored in one step. -/
theorem lbcdPackInfo_eq (e : Endian) (g : WeightGlobals) (lb : LbcdReply) (protocol : UInt16)
    (services : List CStr) (simple : Bool) (cache : UserCache) :
    lbcdPackInfo e g lb protocol services simple cache=
      (do
        let locals : PackLocals ← ssys .stackLocals
        let bt : Option ℤ ← Prog.lift (I := Server) .kernelGetboottime
        let ct : ℤ ← ssys .time
        let loads : Loads ← Prog.lift (I := Server) .kernelGetload
        let users : UserStats × UserCache ← Prog.lift (I := Server) (.getUserStats cache)
        let tmp : ℤ ← Prog.lift (I := Server) (.tmpFull .tmp)
        let tmpdir : ℤ ← Prog.lift (I := Server) (.tmpFull .pTmpdir)
        packServices e g protocol services simple users.2
          (packedFields e lb locals bt ct loads users.1 tmp tmpdir)) :=
  rfl

end Lbcd
