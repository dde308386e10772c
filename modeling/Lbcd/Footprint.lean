import Lbcd.Connections
import Lbcd.Runs

namespace Lbcd

open Interaction CText ByteOrder

/-- System calls of the probes over TCP. -/
def TcpCall : SysCall → Prop
  | .getaddrinfo _ _ _ => True
  | .networkConnect _ => True
  | .malloc _ => True
  | .stackBuffer _ => True
  | .select _ _ => True
  | .read _ _ => True
  | .write _ _ => True
  | .close _ => True
  | _ => False

/-- System calls of the ntp probe. -/
def NtpCall : SysCall → Prop
  | .getservbyname _ => True
  | .getservbyport _ => True
  | .endservent => True
  | .inetAddr _ => True
  | .gethostbyaddr _ => True
  | .gethostbyname _ => True
  | .socket => True
  | .connect _ _ _ => True
  | .fuel => True
  | .outOfFuel => True
  | .send _ _ => True
  | .select _ _ => True
  | .recv _ _ => True
  | .close _ => True
  | _ => False

/-- System calls of lbcd_cmd_weight and its child; the child runs nothing but the helper. -/
def HelperCall (cmd : Option CStr) : SysCall → Prop
  | .pipe => True
  | .fork => True
  | .dup2 _ _ => True
  | .execl path => path=cmd
  | .exit _ => True
  | .close _ => True
  | .fdopen _ => True
  | .fuel => True
  | .outOfFuel => True
  | .waitpid _ => True
  | .kill _ _ => True
  | .fgets _ _ => True
  | .fclose _ => True
  | _ => False

def WeightFunc.Calls (cmd : Option CStr) (f : WeightFunc) (c : SysCall) : Prop :=
  match f with
  | .load => c=.access .nologin
  | .cmd => HelperCall cmd c
  | .rr => False
  | .unknown => False
  | .ntp => NtpCall c
  | _ => TcpCall c

/-- System calls of the readers of /proc. -/
def ProcCall : SysCall → Prop
  | .fopen _ => True
  | .fscanf _ => True
  | .fcloseProc => True
  | .time => True
  | .message _ => True
  | _ => False

def UserCall : SysCall → Prop
  | .stat _ => True
  | .utmpRecords => True
  | .hsearchEnter _ => True
  | _ => False

def TmpCall (path : TmpDir) : SysCall → Prop
  | .chdir path' => path'=path
  | .statvfs => True
  | .undefinedInt => True
  | _ => False

/-- The system calls that a call of the server can come down to. -/
def Footprint (g : WeightGlobals) : ServerCall → SysCall → Prop
  | .sys c => (·=c)
  | .kernelGetboottime => ProcCall
  | .kernelGetload => ProcCall
  | .getUserStats _ => UserCall
  | .tmpFull path => TmpCall path
  | .weight f _ _ _ _ => f.Calls g.lbcdCommand

/-- System calls that the server makes before it serves and after: the only files it names
are its PID file. -/
def StartCall (config : LbcdConfig) : SysCall → Prop
  | .sigaction _ _ => True
  | .sdListenFds => True
  | .networkBindAll _ => True
  | .inetPton6 _ => True
  | .networkBind _ _ _ => True
  | .closeExec _ => True
  | .die d => d≠.unknownService
  | .createPid path => config.pidFile=some path
  | .writePid => True
  | .message _ => True
  | .sdNotify => True
  | .raiseStop => True
  | .fuel => True
  | .unlink path => config.pidFile=some path
  | .close _ => True
  | _ => False

def Starting (config : LbcdConfig) : ServerCall → Prop
  | .sys c => StartCall config c
  | _ => False

/-- Waiting for an answer over a connection. -/
def AwaitCall : SysCall → Prop
  | .malloc _ => True
  | .stackBuffer _ => True
  | .select _ _ => True
  | .read _ _ => True
  | _ => False

/-- What the probes do with a TCP connection but for its close. -/
def StreamCall : SysCall → Prop
  | .write _ _ => True
  | c => AwaitCall c

/-- What the ntp probe does with its socket but for the close. -/
def DatagramCall : SysCall → Prop
  | .fuel => True
  | .outOfFuel => True
  | .send _ _ => True
  | .select _ _ => True
  | .recv _ _ => True
  | _ => False

/-- What lbcd_cmd_weight does to a child it waits for. -/
def ReapCall : SysCall → Prop
  | .outOfFuel => True
  | .waitpid _ => True
  | .kill _ _ => True
  | _ => False

theorem AwaitCall.stream {c : SysCall} (h : AwaitCall c) : StreamCall c := by
  cases c with
  | write fd bytes => trivial
  | _ => exact h

theorem StreamCall.tcp {c : SysCall} (h : StreamCall c) : TcpCall c := by
  cases c with
  | malloc n => trivial
  | stackBuffer n => trivial
  | select fd timeout => trivial
  | read fd n => trivial
  | write fd bytes => trivial
  | _ => exact False.elim h

theorem DatagramCall.ntp {c : SysCall} (h : DatagramCall c) : NtpCall c := by
  cases c with
  | fuel => trivial
  | outOfFuel => trivial
  | send fd bytes => trivial
  | select fd timeout => trivial
  | recv fd n => trivial
  | _ => exact h.elim

theorem ReapCall.helper {c : SysCall} (h : ReapCall c) (cmd : Option CStr) : HelperCall cmd c := by
  cases c with
  | outOfFuel => trivial
  | waitpid pid => trivial
  | kill pid sig => trivial
  | _ => exact h.elim

theorem afterConnect_calls {ok : SysCall → Prop} {exchange : Fd → Prog System ℤ}
    (hx : ∀ sd,(exchange sd).Meets ok fun _ => True) (hc : ∀ sd,ok (.close sd))
    (sd : Option Fd) :
    (afterConnect exchange sd).Meets ok fun _ => True := by
  cases sd with
  | none => trivial
  | some sd => exact (hx sd).bind fun _ _ => ⟨hc sd,fun _ => trivial⟩

theorem lbcdCheckReply_calls (sd : Fd) (timeout : ℤ) (token : Option CStr) :
    (lbcdCheckReply sd timeout token).Meets AwaitCall fun _ => True := by
  cases token with
  | none => trivial
  | some token =>
    refine ⟨trivial,fun block => ?_⟩
    cases block with
    | none => trivial
    | some block =>
      refine ⟨trivial,fun n => ?_⟩
      change Prog.Meets _ _ (if 0 < n then _ else _)
      split_ifs
      · refine ⟨trivial,fun got => ?_⟩
        cases got with
        | none => trivial
        | some got =>
          change Prog.Meets _ _ (if got.val=[] then _ else
            if CStr.ofBuffer (overlay got.val (block.val.set token.bytes.length 0))=token then _
            else _)
          split_ifs <;> trivial
      · trivial

theorem httpAnswer_calls (timeout : ℤ) (sd : Fd) (buf : { bs : List UInt8 // bs.length=17 }) :
    (httpAnswer timeout sd buf).Meets AwaitCall fun _ => True := by
  refine ⟨trivial,fun ready => ?_⟩
  change Prog.Meets _ _ (if 0 < ready then _ else _)
  split_ifs
  · refine ⟨trivial,fun got => ?_⟩
    cases got with
    | none => trivial
    | some got =>
      change Prog.Meets _ _ (if got.val≠[] ∧
        httpAccepts (overlay got.val (buf.val.set 16 0))=true then _ else _)
      split_ifs
      · trivial
      · trivial
  · trivial

theorem checkedWrite_calls (sd : Fd) (timeout : ℤ) (token : CStr) (bytes : List UInt8) :
    (lbcdCheckReply sd timeout (some token) >>= fun v => sys (.write sd bytes) >>= fun _ =>
      Prog.ret v).Meets StreamCall fun _ => True :=
  ((lbcdCheckReply_calls sd timeout token).mono (fun _ hc => hc.stream) fun _ h => h).bind
    fun _ _ => ⟨trivial,fun _ => trivial⟩

theorem tcpExchange_calls (replycheck : Option CStr) (timeout : ℤ) (sd : Fd) :
    (tcpExchange replycheck timeout sd).Meets StreamCall fun _ => True := by
  cases replycheck with
  | none => trivial
  | some token => exact checkedWrite_calls sd timeout token _

theorem imapExchange_calls (timeout : ℤ) (sd : Fd) :
    (imapExchange timeout sd).Meets StreamCall fun _ => True :=
  checkedWrite_calls sd timeout _ _

theorem httpExchange_calls (timeout : ℤ) (sd : Fd) :
    (httpExchange timeout sd).Meets StreamCall fun _ => True := by
  refine ⟨trivial,fun buf => ⟨trivial,fun n => ?_⟩⟩
  change Prog.Meets _ _ (if n < httpQuery.length then _ else _)
  split_ifs
  · trivial
  · exact (httpAnswer_calls timeout sd buf).mono (fun _ hc => hc.stream) fun _ h => h

theorem tcpConnect_calls (host : CStr) (protocol : Option CStr) (port : ℤ) :
    (tcpConnect host protocol port).Meets TcpCall fun _ => True := by
  have link (ai : Option (List AddrInfo)) : (tcpLink ai).Meets TcpCall fun _ => True := by
    cases ai with
    | none => trivial
    | some ai => exact ⟨trivial,fun _ => trivial⟩
  have fallback (ai : Option (List AddrInfo)) :
      (tcpFallback host port ai).Meets TcpCall fun _ => True := by
    rw [tcpFallback]
    split_ifs
    · exact ⟨trivial,link⟩
    · exact link ai
  cases protocol with
  | none => exact fallback none
  | some name => exact ⟨trivial,fallback⟩

/-- A probe over TCP makes no other calls than the connection, the exchange and the close. -/
theorem tcpProbe_calls {exchange : Fd → Prog System ℤ}
    (hx : ∀ sd,(exchange sd).Meets StreamCall fun _ => True) (host : CStr)
    (service : Option CStr) (port : ℤ) :
    (tcpConnect host service port >>= afterConnect exchange).Meets TcpCall fun _ => True :=
  (tcpConnect_calls host service port).bind fun sd _ => afterConnect_calls
    (fun sd => (hx sd).mono (fun _ hc => hc.tcp) fun _ h => h) (fun _ => trivial) sd

theorem probeTcp_calls (host service : Option CStr) (port : ℤ) (replycheck : Option CStr)
    (timeout : ℤ) :
    (probeTcp host service port replycheck timeout).Meets TcpCall fun _ => True := by
  rw [probeTcp_eq]
  exact tcpProbe_calls (tcpExchange_calls replycheck timeout) _ service port

theorem probeImap_calls (host : Option CStr) (timeout : ℤ) :
    (probeImap host timeout).Meets TcpCall fun _ => True := by
  rw [probeImap_eq]
  exact tcpProbe_calls (imapExchange_calls timeout) _ _ 143

theorem probeHttp_calls (host : Option CStr) (timeout : ℤ) (portarg : Option CStr) :
    (probeHttp host timeout portarg).Meets TcpCall fun _ => True := by
  rw [probeHttp_eq]
  exact tcpProbe_calls (httpExchange_calls timeout) _ _ _

theorem udpResolve_calls (host : CStr) (port : UInt16) (se : Option UInt16) :
    (udpResolve host port se).Meets NtpCall fun _ => True := by
  have linked (he : Option UInt32) : (udpLink (se.getD port) he).Meets NtpCall fun _ => True := by
    cases he with
    | none => trivial
    | some he =>
      refine ⟨trivial,fun sd => ?_⟩
      cases sd with
      | none => trivial
      | some sd =>
        refine ⟨trivial,fun connected => ?_⟩
        cases connected with
        | true => trivial
        | false => exact ⟨trivial,fun _ => trivial⟩
  refine ⟨trivial,fun _ => ⟨trivial,fun addr => ?_⟩⟩
  cases addr with
  | some a => exact ⟨trivial,linked⟩
  | none => exact ⟨trivial,linked⟩

theorem udpService_calls (host : CStr) (port : UInt16) (byName : Option UInt16) :
    (udpService host port byName).Meets NtpCall fun _ => True := by
  cases byName with
  | some p => exact udpResolve_calls host port (some p)
  | none =>
    rw [udpService]
    dsimp only
    split_ifs
    · exact ⟨trivial,udpResolve_calls host port⟩
    · exact udpResolve_calls host port none

theorem udpConnect_calls (host : CStr) (protocol : Option CStr) (port : UInt16) :
    (udpConnect host protocol port).Meets NtpCall fun _ => True := by
  cases protocol with
  | none => exact udpService_calls host port none
  | some name => exact ⟨trivial,udpService_calls host port⟩

theorem getresponse_calls (sd : Fd) (implcode reqcode : UInt8) (timeout : ℤ) :
    (getresponse sd implcode reqcode timeout).Meets DatagramCall fun _ => True := by
  have loop (fuel : ℕ) (s : RespState) :
      (getresponseLoop sd implcode reqcode timeout fuel s).Meets DatagramCall fun _ => True := by
    induction fuel generalizing s with
    | zero => exact ⟨trivial,fun r => r.elim⟩
    | succ fuel ih =>
      refine ⟨trivial,fun n => ?_⟩
      change Prog.Meets _ _ (if n < 1 then _ else _)
      split_ifs
      · trivial
      · refine ⟨trivial,fun pkt => ?_⟩
        cases pkt with
        | none => trivial
        | some pkt =>
          dsimp only [Prog.bind]
          cases respStep implcode reqcode s pkt.val with
          | again s => exact ih s
          | error code => trivial
          | done ritems => trivial
  exact ⟨trivial,fun fuel => loop fuel .start⟩

theorem monlist_calls (sd : Fd) (timeout : ℤ) :
    (monlist sd timeout).Meets DatagramCall fun _ => True := by
  refine ⟨trivial,fun sent => ?_⟩
  cases sent with
  | false => trivial
  | true =>
    apply (getresponse_calls sd implXntpd reqMonGetlist timeout).bind
    intro r _
    dsimp only
    split_ifs <;> trivial

theorem probeNtp_calls (host : Option CStr) (timeout : ℤ) :
    (probeNtp host timeout).Meets NtpCall fun _ => True := by
  have peers (sd : Fd) : (monlist sd timeout).Meets NtpCall fun _ => True :=
    (monlist_calls sd timeout).mono (fun _ hc => hc.ntp) fun _ h => h
  rw [probeNtp_eq]
  exact (udpConnect_calls _ _ 123).bind fun sd _ =>
    afterConnect_calls peers (fun _ => trivial) sd

theorem waitChild_calls (child fuel : ℕ) :
    (waitChild child fuel).Meets ReapCall fun _ => True := by
  induction fuel with
  | zero => exact ⟨trivial,fun r => r.elim⟩
  | succ fuel ih =>
    refine ⟨trivial,fun st => ?_⟩
    cases st with
    | failed eintr =>
      cases eintr with
      | false => trivial
      | true => exact ih
    | exited status => trivial
    | signaled sig => trivial

theorem killChild_calls (child : ℕ) : (killChild child).Meets ReapCall fun _ => True := by
  refine ⟨trivial,fun killed => ?_⟩
  cases killed with
  | true => trivial
  | false => exact ⟨trivial,fun _ => trivial⟩

theorem cmdChild_calls {α : Type} (cmd : Option CStr) (r w : Fd) :
    (cmdChild cmd r w : Prog System α).Meets (HelperCall cmd) fun _ => True := by
  refine ⟨trivial,fun _ => ⟨trivial,fun _ => ?_⟩⟩
  change Prog.Meets _ _ (if w≠1 then _ else _)
  split_ifs
  · exact ⟨trivial,fun _ => ⟨trivial,fun _ => ⟨rfl,fun _ => ⟨trivial,fun r => r.elim⟩⟩⟩⟩
  · exact ⟨rfl,fun _ => ⟨trivial,fun r => r.elim⟩⟩

theorem afterWait_calls (cmd : Option CStr) (r : Fd) (child : ℕ) (st : Option WaitPid) :
    (afterWait r child st).Meets (HelperCall cmd) fun _ => True := by
  have after {α : Type} (c : SysCall) (hc : HelperCall cmd c) (a : α) :
      (killChild child >>= fun _ => sys c >>= fun _ => (Prog.ret a : Prog System α)).Meets
        (HelperCall cmd) fun _ => True := by
    have hkill := (killChild_calls child).mono (fun _ hk => hk.helper cmd) fun _ h => h
    exact hkill.bind fun _ _ => ⟨hc,fun _ => trivial⟩
  match st with
  | none => exact ⟨trivial,fun _ => after (.waitpid child) trivial _⟩
  | some (.exited 0) =>
    refine ⟨trivial,fun line => ⟨trivial,fun _ => ?_⟩⟩
    cases line with
    | none => trivial
    | some buf => trivial
  | some (.exited (status+1)) => exact ⟨trivial,fun _ => trivial⟩
  | some (.failed eintr) => exact after (.fclose r) trivial _
  | some (.signaled sig) => exact after (.fclose r) trivial _

theorem cmdParent_calls (cmd : Option CStr) (r w : Fd) (child : ℕ) :
    (cmdParent r w child).Meets (HelperCall cmd) fun _ => True := by
  refine ⟨trivial,fun _ => ⟨trivial,fun fp => ?_⟩⟩
  cases fp with
  | false => exact ⟨trivial,fun _ => ⟨trivial,fun _ => trivial⟩⟩
  | true =>
    refine ⟨trivial,fun fuel => ?_⟩
    have hwait := (waitChild_calls child fuel).mono (fun _ hc => hc.helper cmd) fun _ h => h
    exact hwait.bind fun st _ => afterWait_calls cmd r child st

theorem runCmd_calls (cmd : Option CStr) :
    (runCmd cmd).Meets (HelperCall cmd) fun _ => True := by
  rw [runCmd_eq]
  refine ⟨trivial,fun fds => ?_⟩
  cases fds with
  | none => trivial
  | some p =>
    obtain ⟨r,w⟩ := p
    refine ⟨trivial,fun forked => ?_⟩
    cases forked with
    | failed => trivial
    | child => exact cmdChild_calls cmd r w
    | parent child => exact cmdParent_calls cmd r w child

theorem kernelGetboottime_calls : kernelGetboottime.Meets ProcCall fun _ => True := by
  refine ⟨trivial,fun opened => ?_⟩
  cases opened with
  | false => exact ⟨trivial,fun _ => trivial⟩
  | true =>
    refine ⟨trivial,fun got => ⟨trivial,fun _ => ?_⟩⟩
    obtain ⟨qs,hq⟩ := got
    cases qs with
    | nil => exact ⟨trivial,fun _ => trivial⟩
    | cons uptime rest => exact ⟨trivial,fun _ => trivial⟩

theorem kernelGetload_calls : kernelGetload.Meets ProcCall fun _ => True := by
  refine ⟨trivial,fun opened => ?_⟩
  cases opened with
  | false => exact ⟨trivial,fun _ => trivial⟩
  | true =>
    refine ⟨trivial,fun got => ⟨trivial,fun _ => ?_⟩⟩
    change Prog.Meets _ _ (if got.val.length < 3 then _ else _)
    split_ifs
    · exact ⟨trivial,fun _ => trivial⟩
    · trivial

theorem scanUtmp_calls (records : List Utmpx) (total onConsole : ℤ)
    (table users : List CStr) :
    (scanUtmp records total onConsole table users).Meets UserCall fun _ => True := by
  have added (name : CStr) (table users : List CStr) :
      (uniqAdd name table users).Meets UserCall fun _ => True := by
    rw [uniqAdd]
    split_ifs
    · trivial
    · trivial
    · exact ⟨trivial,fun _ => trivial⟩
  induction records generalizing total onConsole table users with
  | nil => trivial
  | cons ut uts ih =>
    rw [scanUtmp]
    by_cases hu : ut.userProcess
    · rw [if_pos hu]
      exact (added _ _ _).bind fun r _ => ih _ _ _ _
    · rw [if_neg hu]
      exact ih _ _ _ _

theorem getUserStats_calls (cache : UserCache) :
    (getUserStats cache).Meets UserCall fun _ => True := by
  refine ⟨trivial,fun sbuf => ?_⟩
  dsimp only [Prog.bind]
  split_ifs
  · trivial
  · refine ⟨trivial,fun console => ⟨trivial,fun tty1 => ⟨trivial,fun records => ?_⟩⟩⟩
    exact (scanUtmp_calls _ _ _ _ _).bind fun r _ => trivial

theorem tmpFull_calls (path : TmpDir) : (tmpFull path).Meets (TmpCall path) fun _ => True := by
  refine ⟨rfl,fun changed => ?_⟩
  cases changed with
  | false => trivial
  | true =>
    refine ⟨trivial,fun info => ?_⟩
    cases info with
    | none => trivial
    | some info =>
      change Prog.Meets _ _ (if info.fBlocks=0 then _ else _)
      split_ifs
      · exact ⟨trivial,fun _ => trivial⟩
      · trivial

theorem probeWeight_calls (slot : Slot) (lb : LbcdReply) {probe : Prog System ℤ}
    (h : probe.Meets TcpCall fun _ => True) :
    (probeWeight slot lb probe).Meets TcpCall fun _ => True :=
  h.bind fun _ _ => trivial

theorem weightFunction_calls (e : Endian) (g : WeightGlobals) (f : WeightFunc) (slot : Slot)
    (timeout : ℤ) (portarg : Option CStr) (lb : LbcdReply) :
    (weightFunction e g f slot timeout portarg lb).Meets (f.Calls g.lbcdCommand)
      fun _ => True := by
  cases f with
  | load => exact ⟨rfl,fun _ => trivial⟩
  | cmd =>
    apply (runCmd_calls g.lbcdCommand).bind
    intro r _
    cases r with
    | none => trivial
    | some p => trivial
  | rr => trivial
  | unknown => trivial
  | ftp => exact probeWeight_calls slot lb (probeTcp_calls _ _ _ _ timeout)
  | http => exact probeWeight_calls slot lb (probeHttp_calls _ timeout portarg)
  | imap => exact probeWeight_calls slot lb (probeImap_calls _ timeout)
  | nntp => exact probeWeight_calls slot lb (probeTcp_calls _ _ _ _ timeout)
  | ntp => exact (probeNtp_calls _ timeout).bind fun v _ => trivial
  | pop => exact probeWeight_calls slot lb (probeTcp_calls _ _ _ _ timeout)
  | smtp => exact probeWeight_calls slot lb (probeTcp_calls _ _ _ _ timeout)
  | tcp =>
    cases portarg with
    | none => trivial
    | some arg =>
      change Prog.Meets _ _ (if arg.bytes.all isdigit then _ else _)
      split_ifs
      · trivial
      · exact probeWeight_calls slot lb (probeTcp_calls _ _ _ _ timeout)
      · exact probeWeight_calls slot lb (probeTcp_calls _ _ _ _ timeout)

/-- Each call of the server keeps to its own system calls. -/
theorem implement_calls (e : Endian) (g : WeightGlobals) (c : ServerCall) :
    (implement e g c).Meets (Footprint g c) fun _ => True := by
  cases c with
  | sys c =>
    cases c with
    | message m => trivial
    | _ => exact ⟨rfl,fun _ => trivial⟩
  | kernelGetboottime => exact kernelGetboottime_calls
  | kernelGetload => exact kernelGetload_calls
  | getUserStats cache => exact getUserStats_calls cache
  | tmpFull path => exact tmpFull_calls path
  | weight f slot timeout portarg lb => exact weightFunction_calls e g f slot timeout portarg lb

theorem setHandler_starting (config : LbcdConfig) (sig : Signal) (act : Disposition) :
    (setHandler sig act).Meets (Starting config) fun _ => True := by
  refine ⟨trivial,fun set => ?_⟩
  cases set with
  | true => trivial
  | false => exact ⟨trivial,fun _ => trivial⟩

theorem bindEach_starting (config : LbcdConfig) (addrs : List CStr) :
    (bindEach config addrs).Meets (Starting config) fun _ => True := by
  induction addrs with
  | nil => trivial
  | cons addr addrs ih =>
    refine ⟨trivial,fun v6 => ⟨trivial,fun fd => ?_⟩⟩
    cases fd with
    | none => exact ⟨Die.noConfusion,fun r => r.elim⟩
    | some fd =>
      refine ⟨trivial,fun marked => ?_⟩
      cases marked with
      | true => exact ih.bind fun fds _ => trivial
      | false => exact ⟨Die.noConfusion,fun r => r.elim⟩

theorem bindSockets_starting (config : LbcdConfig) :
    (bindSockets config).Meets (Starting config) fun _ => True := by
  refine ⟨trivial,fun status => ?_⟩
  change Prog.Meets _ _ (if status < 0 then _ else if 0 < status then _ else _)
  split_ifs
  · exact ⟨Die.noConfusion,fun r => r.elim⟩
  · trivial
  · cases haddrs : config.bindaddrs with
    | nil =>
      refine ⟨trivial,fun fds => ?_⟩
      cases fds with
      | none => exact ⟨Die.noConfusion,fun r => r.elim⟩
      | some fds => trivial
    | cons addr addrs => exact bindEach_starting config (addr :: addrs)

theorem createPidFile_starting (config : LbcdConfig) :
    (createPidFile config).Meets (Starting config) fun _ => True := by
  rw [createPidFile]
  cases hp : config.pidFile with
  | none => trivial
  | some path =>
    refine ⟨hp,fun created => ?_⟩
    cases created with
    | true => exact ⟨trivial,fun _ => trivial⟩
    | false => exact ⟨trivial,fun _ => trivial⟩

theorem closeAll_starting (config : LbcdConfig) (fds : List Fd) :
    (closeAll fds).Meets (Starting config) fun _ => True := by
  induction fds with
  | nil => trivial
  | cons fd fds ih => exact ⟨trivial,fun _ => ih⟩

theorem removePidFile_starting (config : LbcdConfig) :
    (removePidFile config).Meets (Starting config) fun _ => True := by
  rw [removePidFile]
  cases hp : config.pidFile with
  | none => trivial
  | some path => exact ⟨hp,fun _ => trivial⟩

theorem notifySystemd_starting (config : LbcdConfig) :
    notifySystemd.Meets (Starting config) fun _ => True := by
  refine ⟨trivial,fun status => ?_⟩
  change Prog.Meets _ _ (if status < 0 then _ else _)
  split_ifs
  · exact ⟨trivial,fun _ => trivial⟩
  · trivial

theorem notifyUpstart_starting (config : LbcdConfig) :
    (notifyUpstart config).Meets (Starting config) fun _ => True := by
  rw [notifyUpstart]
  split_ifs
  · refine ⟨trivial,fun raised => ?_⟩
    cases raised with
    | true => trivial
    | false => exact ⟨trivial,fun _ => trivial⟩
  · trivial

theorem startUp_starting (config : LbcdConfig) :
    (startUp config).Meets (Starting config) fun _ => True := by
  have ready : (message .ready).Meets (Starting config) fun _ => True := ⟨trivial,fun _ => trivial⟩
  apply (setHandler_starting config .hup .ign).bind
  intro _ _
  apply (setHandler_starting config .int .handler).bind
  intro _ _
  apply (setHandler_starting config .term .handler).bind
  intro _ _
  apply (bindSockets_starting config).bind
  intro fds _
  apply (createPidFile_starting config).bind
  intro _ _
  apply ready.bind
  intro _ _
  apply (notifySystemd_starting config).bind
  intro _ _
  apply (notifyUpstart_starting config).bind
  intro _ _
  trivial

end Lbcd
