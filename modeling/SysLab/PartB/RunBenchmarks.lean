import SysLab.PartB.LoadOptions
import SysLab.PartB.LoadReport
import SysLab.PartB.ServerOptions

/-!
# The benchmark script

`run_benchmarks.sh` as a whole: `run_one` for the four servers in turn, under
`set -e`, and `write_summary`.  The answers say how each command ends on which the
script's outcome depends: those behind `|| true` have none, nor has the message before
`exit 1`.

* `ports_agree` — each server listens where its client connects.
* `script_reports` — what the script leaves behind, however it ends.
-/

namespace SysLab.PartB.RunBenchmarks

open SysLab.Foundation
open SysLab.PartB.LoadClient (Report)

inductive Server
  | poll
  | epoll
  | threadpool
  | io_uring
  deriving DecidableEq, Repr

namespace Server

def name : Server → String
  | poll => "poll"
  | epoll => "epoll"
  | threadpool => "threadpool"
  | io_uring => "io_uring"

/-- What is added to `BASE_PORT`. -/
def place : Server → Int
  | poll => 1
  | epoll => 2
  | threadpool => 3
  | io_uring => 4

/-- The order of the last lines of the script, and of the loop in `write_summary`. -/
def order : List Server := [poll, epoll, threadpool, io_uring]

theorem mem_order (server : Server) : server ∈ order := by
  cases server <;> decide

end Server

/-- The variables at the top of the script. -/
structure Settings where
  host : String
  basePort : Int
  connections : String
  requestsPerConnection : String
  payloadSize : String
  clientThreads : String
  pollMaxClients : String
  epollMaxClients : String
  threadpoolThreads : String

/-- Where the environment sets none of them. -/
def defaultSettings : Settings where
  host := "127.0.0.1"
  basePort := 9100
  connections := "64"
  requestsPerConnection := "1000"
  payloadSize := "1024"
  clientThreads := "4"
  pollMaxClients := "1024"
  epollMaxClients := "1024"
  threadpoolThreads := "8"

/-! ## The commands -/

/-- `$((BASE_PORT + k))`, in 64 bits. -/
def portText (settings : Settings) (server : Server) : String :=
  String.ofList (Numeral.ofInt ((settings.basePort + server.place).bmod (2 ^ 64))).text

/-- The arguments of the server. -/
def serverArgs (settings : Settings) (server : Server) : List String :=
  "--port" :: portText settings server ::
    match server with
    | .poll => ["--max-clients", settings.pollMaxClients]
    | .epoll => ["--max-clients", settings.epollMaxClients]
    | .threadpool => ["--threads", settings.threadpoolThreads]
    | .io_uring => []

/-- The arguments of `./load_client` in `run_one`. -/
def clientArgs (settings : Settings) (server : Server) : List String :=
  ["--host", settings.host,
   "--port", portText settings server,
   "--connections", settings.connections,
   "--requests-per-connection", settings.requestsPerConnection,
   "--payload-size", settings.payloadSize,
   "--threads", settings.clientThreads]

/-- The port that the server makes of its arguments. -/
def listensOn : Server → List String → Except String Nat
  | .poll, args => (PollServer.parseArgs args).map ServerOptions.port
  | .epoll, args => (EpollServer.parseArgs args).map ServerOptions.port
  | .threadpool, args => (ThreadpoolServer.parseArgs args).map ServerOptions.port
  | .io_uring, args => IoUringServer.parseArgs args

/-! ## The script -/

/-- A process is started, or has ended. -/
inductive Action
  | spawn (server : Server) (args : List String)
  | client (args : List String)
  | reap (server : Server)
  deriving DecidableEq

/-- What comes of the client: its log cannot be opened, or it has ended and left it. -/
inductive ClientEnd
  | unopened
  | ended (status : Nat) (log : List (List Char))

/-- `client_status`. -/
def ClientEnd.status : ClientEnd → Nat
  | .unopened => 1
  | .ended status _ => status

def ClientEnd.log : ClientEnd → Option (List (List Char))
  | .unopened => none
  | .ended _ log => some log

/-- Without a log it is not started. -/
def ClientEnd.actions (args : List String) : ClientEnd → List Action
  | .unopened => []
  | .ended _ _ => [.client args]

/-- What comes of an `echo` into a file: the file cannot be opened, or takes no more than
the first characters of the line, or all of it. -/
inductive EchoEnd
  | unopened
  | torn (taken : Nat)
  | written
  deriving DecidableEq

/-- The lines that it leaves in the file, if it opens it. -/
def EchoEnd.left (line : List Char) : EchoEnd → Option (List (List Char))
  | .unopened => none
  | .torn taken => some (if taken = 0 then [] else [line.take taken])
  | .written => some [line]

/-- How the commands end.  The `echo` of a message to the terminal has status 1 when it
fails: `starting` is the one before the server, `failed` the one on a client that has
failed, `announced` the last of the script. -/
structure Answers where
  mkdir : Nat
  executable : Bool
  starting : Server → Bool
  sleep : Server → Nat
  client : Server → ClientEnd
  failed : Server → Bool
  create : EchoEnd
  awk : Server → List Char → Nat
  append : Server → EchoEnd
  announced : Bool

/-- The status of `run_one` when the client has failed. -/
def Answers.failure (ans : Answers) (server : Server) : Nat :=
  if ans.failed server then (ans.client server).status else 1

/-- What the script works on: the server processes that it has started and not yet
waited for, the logs of the clients and the summary, each by its lines, and the
processes so far. -/
structure World where
  running : List Server
  clientLog : Server → Option (List (List Char))
  summary : Option (List (List Char))
  actions : List Action

/-- Before the first command, with the files of earlier runs. -/
def World.start (clientLog : Server → Option (List (List Char)))
    (summary : Option (List (List Char))) : World where
  running := []
  clientLog := clientLog
  summary := summary
  actions := []

section Script

variable (awk : Awk) (settings : Settings) (ans : Answers)

/-- `run_one`, its status first. -/
def runOne (server : Server) (w : World) : Nat × World :=
  if ans.starting server then
    let started : World := { w with
      running := server :: w.running
      actions := w.actions ++ [.spawn server (serverArgs settings server)] }
    if ans.sleep server ≠ 0 then (ans.sleep server, started)
    else
      let finished : World := { started with
        running := w.running
        clientLog := fun k =>
          if k = server then (ans.client server).log.or (w.clientLog k) else w.clientLog k
        actions := started.actions ++
          (ans.client server).actions (clientArgs settings server) ++ [.reap server] }
      if (ans.client server).status ≠ 0 then (ans.failure server, finished)
      else (0, finished)
  else (1, w)

/-- `run_one` for each; `set -e` stops at the first that fails. -/
def runAll : List Server → World → Nat × World
  | [], w => (0, w)
  | server :: rest, w =>
      let ended := runOne settings ans server w
      if ended.1 = 0 then runAll rest ended.2 else ended

/-- The keys that `write_summary` asks for. -/
def metrics : List (List Char) :=
  ["throughput_mib_per_sec".toList, "requests_per_sec".toList, "avg_latency_ms".toList,
    "p99_latency_ms".toList]

def summaryHeader : List Char :=
  "server,throughput_mib_per_sec,requests_per_sec,avg_latency_ms,p99_latency_ms".toList

/-- The line of one server. -/
def summaryRow (log : List (List Char)) (server : Server) : List Char :=
  server.name.toList ++ metrics.flatMap fun key => ',' :: (extractMetric awk log key).getD []

/-- The loop in `write_summary`; `set -e` stops at an awk that fails. -/
def writeRows : List Server → World → Nat × World
  | [], w => (0, w)
  | server :: rest, w =>
      match w.clientLog server with
      | none => writeRows rest w
      | some log =>
          match (metrics.map (ans.awk server)).find? (· ≠ 0) with
          | some status => (status, w)
          | none =>
              let left := (ans.append server).left (summaryRow awk log server)
              let w : World := { w with summary := w.summary.map (· ++ left.getD []) }
              if ans.append server = .written then writeRows rest w else (1, w)

def writeSummary (w : World) : Nat × World :=
  let w : World := { w with summary := (ans.create.left summaryHeader).or w.summary }
  if ans.create = .written then
    let ended := writeRows awk ans Server.order w
    if ended.1 = 0 then (if ans.announced then 0 else 1, ended.2) else ended
  else (1, w)

/-- The whole script. -/
def script (clientLog : Server → Option (List (List Char)))
    (summary : Option (List (List Char))) : Nat × World :=
  let w := World.start clientLog summary
  if ans.mkdir ≠ 0 then (ans.mkdir, w)
  else if ans.executable then
    let ended := runAll settings ans Server.order w
    if ended.1 = 0 then writeSummary awk ans ended.2 else ended
  else (1, w)

end Script

/-! ## One port for both -/

theorem parsePort_portText {settings : Settings} {server : Server} {n : Nat}
    (hport : settings.basePort + server.place = n) (hn : n ≤ 65535) :
    parsePort (portText settings server).toList = .ok n := by
  have hwide : ((n : Int)).bmod (2 ^ 64) = n := Int.bmod_eq_of_le (by omega) (by omega)
  have htext : (portText settings server).toList = (Numeral.ofInt n).text := by
    rw [portText, hport, hwide, String.toList_ofList]
  have hnonneg : ¬ (n : Int) < 0 := by omega
  have hsign : (Numeral.ofInt n).sign = .none := by simp only [Numeral.ofInt, if_neg hnonneg]
  have hvalue := Numeral.value_ofInt n
  rw [Numeral.value, hsign] at hvalue
  have hmagnitude : (Numeral.ofInt n).magnitude = n := Int.ofNat_inj.mp hvalue
  rw [htext, parsePort_returns.parse_text, hsign, hmagnitude]
  exact ⟨if_neg (by omega), hn⟩

/-- The settings are numbers that the programs take. -/
structure Settings.Readable (settings : Settings) : Prop where
  connections : ∃ n, parseInt settings.connections.toList "connections" 1 = .ok n
  requestsPerConnection :
    ∃ n, parseInt settings.requestsPerConnection.toList "requests-per-connection" 1 = .ok n
  payloadSize : ∃ n, parseSize settings.payloadSize.toList "payload-size" 1 = .ok n
  clientThreads : ∃ n, parseInt settings.clientThreads.toList "threads" 1 = .ok n
  pollMaxClients : ∃ n, parseInt settings.pollMaxClients.toList "max-clients" 1 = .ok n
  epollMaxClients : ∃ n, parseInt settings.epollMaxClients.toList "max-clients" 1 = .ok n
  threadpoolThreads : ∃ n, parseInt settings.threadpoolThreads.toList "threads" 1 = .ok n

/-- Each server listens on a port of its own, where its client connects. -/
theorem ports_agree {settings : Settings} (hread : settings.Readable) {base : Nat}
    (hbase : settings.basePort = base) (hlast : base + 4 ≤ 65535) (server : Server) :
    ∃ opts : LoadClient.Options,
      LoadClient.parseArgs (clientArgs settings server) = .ok opts ∧
      listensOn server (serverArgs settings server) = .ok opts.port ∧
      opts.host = settings.host ∧ (opts.port : Int) = base + server.place := by
  obtain ⟨connections, hconnections⟩ := hread.connections
  obtain ⟨requests, hrequests⟩ := hread.requestsPerConnection
  obtain ⟨size, hsize⟩ := hread.payloadSize
  obtain ⟨threads, hthreads⟩ := hread.clientThreads
  obtain ⟨pollMax, hpollMax⟩ := hread.pollMaxClients
  obtain ⟨epollMax, hepollMax⟩ := hread.epollMaxClients
  obtain ⟨pool, hpool⟩ := hread.threadpoolThreads
  have hplace : 1 ≤ server.place ∧ server.place ≤ 4 := by cases server <;> decide
  obtain ⟨n, hn⟩ := Int.eq_ofNat_of_zero_le (a := base + server.place) (by omega)
  have hport : parsePort (portText settings server).toList = .ok n :=
    parsePort_portText (hbase ▸ hn) (by omega)
  have hpos : n ≠ 0 := by omega
  refine ⟨⟨settings.host, n, connections, requests, size, threads⟩, ?_, ?_, rfl, hn.symm⟩
  · simp [LoadClient.parseArgs, clientArgs, LoadClient.parseLoop, LoadClient.setOption,
      hport, hconnections, hrequests, hsize, hthreads, Except.map, hpos]
  · cases server
    · simp [listensOn, serverArgs, PollServer.parseArgs, PollServer.command,
        ServerCommand.parseArgs, optionLoop, ServerCommand.setOption, hport, hpollMax,
        Except.map, hpos]
    · simp [listensOn, serverArgs, EpollServer.parseArgs, EpollServer.command,
        ServerCommand.parseArgs, optionLoop, ServerCommand.setOption, hport, hepollMax,
        Except.map, hpos]
    · simp [listensOn, serverArgs, ThreadpoolServer.parseArgs, ThreadpoolServer.command,
        ServerCommand.parseArgs, optionLoop, ServerCommand.setOption, hport, hpool,
        Except.map, hpos]
    · simp [listensOn, serverArgs, IoUringServer.parseArgs, optionLoop,
        IoUringServer.setOption, hport, hpos]

theorem defaultSettings_readable : defaultSettings.Readable where
  connections := ⟨64, by decide⟩
  requestsPerConnection := ⟨1000, by decide⟩
  payloadSize := ⟨1024, by decide⟩
  clientThreads := ⟨4, by decide⟩
  pollMaxClients := ⟨1024, by decide⟩
  epollMaxClients := ⟨1024, by decide⟩
  threadpoolThreads := ⟨8, by decide⟩

/-- With these, `io_uring_server` listens on port 9104. -/
example : ∃ opts : LoadClient.Options,
    LoadClient.parseArgs (clientArgs defaultSettings .io_uring) = .ok opts ∧
    listensOn .io_uring (serverArgs defaultSettings .io_uring) = .ok opts.port ∧
    opts.host = "127.0.0.1" ∧ (opts.port : Int) = 9100 + 4 :=
  ports_agree defaultSettings_readable rfl (by decide) .io_uring

/-! ## How the servers take turns -/

section Turns

variable (settings : Settings) (ans : Answers)

/-- The processes of one `run_one`: the server has been killed and waited for at its
end. -/
def bout (server : Server) : List Action :=
  .spawn server (serverArgs settings server) ::
    (ans.client server).actions (clientArgs settings server) ++ [.reap server]

/-- `run_one` returns 0. -/
def Passes (server : Server) : Prop :=
  ans.starting server = true ∧ ans.sleep server = 0 ∧ (ans.client server).status = 0

/-- `run_one` has been through these servers. -/
def World.after (w : World) (servers : List Server) : World :=
  { w with
    clientLog := fun k =>
      if k ∈ servers then (ans.client k).log.or (w.clientLog k) else w.clientLog k
    actions := w.actions ++ servers.flatMap (bout settings ans) }

/-- Its server has been started. -/
def World.spawned (w : World) (server : Server) : World :=
  { w with
    running := server :: w.running
    actions := w.actions ++ [.spawn server (serverArgs settings server)] }

/-- The ways through a list of servers: all have passed; or the first that has not was not
started, its message having failed, or is still running, its `sleep` having failed, or has
been waited for, its client having failed. -/
inductive Through (w : World) (servers : List Server) : Nat × World → Prop
  | passed (h : ∀ server ∈ servers, Passes ans server) :
      Through w servers (0, w.after settings ans servers)
  | silent (done rest : List Server) (server : Server) (hsplit : servers = done ++ server :: rest)
      (hdone : ∀ server ∈ done, Passes ans server) (hstarting : ans.starting server ≠ true) :
      Through w servers (1, w.after settings ans done)
  | asleep (done rest : List Server) (server : Server) (hsplit : servers = done ++ server :: rest)
      (hdone : ∀ server ∈ done, Passes ans server) (hsleep : ans.sleep server ≠ 0) :
      Through w servers (ans.sleep server, (w.after settings ans done).spawned settings server)
  | failed (done rest : List Server) (server : Server) (hsplit : servers = done ++ server :: rest)
      (hdone : ∀ server ∈ done, Passes ans server)
      (hclient : (ans.client server).status ≠ 0) :
      Through w servers (ans.failure server, w.after settings ans (done ++ [server]))

variable {settings ans} {w : World}

theorem failure_ne_zero {server : Server} (h : (ans.client server).status ≠ 0) :
    ans.failure server ≠ 0 := by
  rw [Answers.failure]
  split
  · exact h
  · exact Nat.one_ne_zero

theorem after_nil : w.after settings ans [] = w := by
  simp only [World.after, List.not_mem_nil, if_false, List.flatMap_nil, List.append_nil]

theorem after_cons (server : Server) (servers : List Server) :
    (w.after settings ans [server]).after settings ans servers =
      w.after settings ans (server :: servers) := by
  have hlog : (fun k => if k ∈ servers then
        (ans.client k).log.or
          (if k ∈ [server] then (ans.client k).log.or (w.clientLog k) else w.clientLog k)
      else if k ∈ [server] then (ans.client k).log.or (w.clientLog k) else w.clientLog k) =
      fun k => if k ∈ server :: servers then (ans.client k).log.or (w.clientLog k)
        else w.clientLog k := by
    funext k
    by_cases hmem : k ∈ servers
    · rw [if_pos hmem, if_pos (List.mem_cons_of_mem _ hmem)]
      by_cases hserver : k ∈ [server]
      · rw [if_pos hserver]
        cases (ans.client k).log <;> rfl
      · rw [if_neg hserver]
    · simp only [hmem, if_false, List.mem_cons, List.not_mem_nil, or_false]
  simp only [World.after, hlog, List.flatMap_cons, List.flatMap_nil, List.append_nil,
    List.append_assoc]

/-- What one `run_one` does. -/
theorem runOne_eq (server : Server) :
    runOne settings ans server w =
      if ans.starting server then
        if ans.sleep server ≠ 0 then (ans.sleep server, w.spawned settings server)
        else
          (if (ans.client server).status ≠ 0 then ans.failure server else 0,
            w.after settings ans [server])
      else (1, w) := by
  have hlog : (fun k => if k = server then (ans.client server).log.or (w.clientLog k)
        else w.clientLog k) =
      fun k => if k ∈ [server] then (ans.client k).log.or (w.clientLog k)
        else w.clientLog k := by
    funext k
    simp only [List.mem_singleton]
    split
    · next hk => rw [hk]
    · rfl
  unfold runOne
  dsimp only
  split
  · split
    · rfl
    · simp only [World.after, hlog, List.flatMap_cons, List.flatMap_nil, bout,
        List.append_nil, List.append_assoc, List.cons_append, List.nil_append]
      split
      · rfl
      · rfl
  · rfl

/-- A server that passes in front of them. -/
theorem Through.cons {server : Server} {rest : List Server} {f : Nat × World}
    (hpass : Passes ans server)
    (h : Through settings ans (w.after settings ans [server]) rest f) :
    Through settings ans w (server :: rest) f := by
  cases h with
  | passed h =>
      rw [after_cons]
      exact .passed (List.forall_mem_cons.mpr ⟨hpass, h⟩)
  | silent done tail last hsplit hdone hlast =>
      rw [after_cons]
      exact .silent (server :: done) tail last (by rw [hsplit]; rfl)
        (List.forall_mem_cons.mpr ⟨hpass, hdone⟩) hlast
  | asleep done tail last hsplit hdone hlast =>
      rw [after_cons]
      exact .asleep (server :: done) tail last (by rw [hsplit]; rfl)
        (List.forall_mem_cons.mpr ⟨hpass, hdone⟩) hlast
  | failed done tail last hsplit hdone hfail =>
      rw [after_cons]
      exact .failed (server :: done) tail last (by rw [hsplit]; rfl)
        (List.forall_mem_cons.mpr ⟨hpass, hdone⟩) hfail

/-- What all of them do. -/
theorem runAll_through (servers : List Server) (w : World) :
    Through settings ans w servers (runAll settings ans servers w) := by
  induction servers generalizing w with
  | nil =>
      rw [runAll]
      have hpassed : Through settings ans w [] (0, w.after settings ans []) :=
        .passed fun _ h => absurd h List.not_mem_nil
      rwa [after_nil] at hpassed
  | cons server rest ih =>
      have hnone : ∀ server ∈ ([] : List Server), Passes ans server := fun _ h =>
        absurd h List.not_mem_nil
      rw [runAll, runOne_eq]
      by_cases hstarting : ans.starting server = true
      · rw [if_pos hstarting]
        by_cases hsleep : ans.sleep server = 0
        · rw [if_neg (not_not.mpr hsleep)]
          by_cases hclient : (ans.client server).status = 0
          · rw [if_neg (not_not.mpr hclient), if_pos rfl]
            have hpass : Passes ans server := ⟨hstarting, hsleep, hclient⟩
            exact (ih (w.after settings ans [server])).cons hpass
          · rw [if_pos hclient, if_neg (failure_ne_zero hclient)]
            exact .failed [] rest server rfl hnone hclient
        · have hasleep : Through settings ans w (server :: rest)
              (ans.sleep server, (w.after settings ans []).spawned settings server) :=
            .asleep [] rest server rfl hnone hsleep
          rw [after_nil] at hasleep
          rw [if_pos hsleep, if_neg hsleep]
          exact hasleep
      · have hsilent : Through settings ans w (server :: rest) (1, w.after settings ans []) :=
          .silent [] rest server rfl hnone hstarting
        rw [after_nil] at hsilent
        rw [if_neg hstarting, if_neg Nat.one_ne_zero]
        exact hsilent

end Turns

/-! ## `write_summary` -/

section Summary

variable (awk : Awk) (ans : Answers)

/-- A server's line can be made and written. -/
def Writes (ans : Answers) (server : Server) : Prop :=
  (∀ key ∈ metrics, ans.awk server key = 0) ∧ ans.append server = .written

/-- `write_summary` starts no process and waits for none. -/
theorem writeRows_frame (servers : List Server) (w : World) :
    (writeRows awk ans servers w).2.running = w.running ∧
      (writeRows awk ans servers w).2.actions = w.actions := by
  induction servers generalizing w with
  | nil => exact ⟨rfl, rfl⟩
  | cons server rest ih =>
      rw [writeRows]
      split
      · exact ih w
      split
      · exact ⟨rfl, rfl⟩
      dsimp only
      split
      · exact ih _
      · exact ⟨rfl, rfl⟩

theorem find?_awk (server : Server) :
    (metrics.map (ans.awk server)).find? (· ≠ 0) = none ↔
      ∀ key ∈ metrics, ans.awk server key = 0 := by
  rw [List.find?_eq_none, List.forall_mem_map]
  simp only [ne_eq, decide_not, Bool.not_eq_eq_eq_not, Bool.not_true, decide_eq_false_iff_not,
    not_not]

/-- With a log for each server it succeeds exactly if each line can be made and
written, and then it has added these lines. -/
theorem writeRows_log (servers : List Server) {w : World}
    {log : Server → List (List Char)}
    (hlog : ∀ server ∈ servers, w.clientLog server = some (log server)) :
    ((writeRows awk ans servers w).1 = 0 ↔ ∀ server ∈ servers, Writes ans server) ∧
      ((writeRows awk ans servers w).1 = 0 →
        (writeRows awk ans servers w).2.summary =
          w.summary.map (· ++ servers.map fun server => summaryRow awk (log server) server)) := by
  induction servers generalizing w with
  | nil =>
      rw [writeRows]
      refine ⟨iff_of_true rfl fun _ h => absurd h List.not_mem_nil, fun _ => ?_⟩
      cases w.summary <;> simp
  | cons server rest ih =>
      obtain ⟨hserver, hrest⟩ := List.forall_mem_cons.mp hlog
      rw [writeRows, hserver]
      dsimp only
      cases hawk : (metrics.map (ans.awk server)).find? (· ≠ 0) with
      | some status =>
          have hstatus : status ≠ 0 := by simpa using List.find?_some hawk
          have hnot : ¬ Writes ans server := fun h => by
            rw [(find?_awk ans server).mpr h.1] at hawk
            cases hawk
          refine ⟨iff_of_false hstatus fun h => hnot (h server List.mem_cons_self), fun h => ?_⟩
          exact absurd h hstatus
      | none =>
          dsimp only
          by_cases happend : ans.append server = .written
          · have hwrites : Writes ans server := ⟨(find?_awk ans server).mp hawk, happend⟩
            obtain ⟨hstatus, hsummary⟩ := ih
              (w := { w with summary := w.summary.map (· ++ [summaryRow awk (log server) server]) })
              hrest
            rw [if_pos happend, happend, List.forall_mem_cons]
            refine ⟨hstatus.trans (and_iff_right hwrites).symm, fun h => ?_⟩
            refine (hsummary h).trans ?_
            cases w.summary <;> simp
          · rw [if_neg happend]
            refine ⟨iff_of_false Nat.one_ne_zero fun h => ?_, fun h => absurd h Nat.one_ne_zero⟩
            exact happend (h server List.mem_cons_self).2

theorem writeSummary_frame (w : World) :
    (writeSummary awk ans w).2.running = w.running ∧
      (writeSummary awk ans w).2.actions = w.actions := by
  unfold writeSummary
  dsimp only
  split
  · split
    · exact writeRows_frame awk ans Server.order _
    · exact writeRows_frame awk ans Server.order _
  · exact ⟨rfl, rfl⟩

/-- With a log for each server it succeeds exactly if each line can be made and
written and the last message printed, and then the summary has these lines. -/
theorem writeSummary_log {w : World} {log : Server → List (List Char)}
    (hlog : ∀ server, w.clientLog server = some (log server)) :
    ((writeSummary awk ans w).1 = 0 ↔ ans.create = .written ∧ (∀ server, Writes ans server) ∧
      ans.announced = true) ∧
    ((writeSummary awk ans w).1 = 0 → (writeSummary awk ans w).2.summary =
      some (summaryHeader :: Server.order.map fun server =>
        summaryRow awk (log server) server)) := by
  by_cases hcreate : ans.create = .written
  · have heq : writeSummary awk ans w =
        let ended := writeRows awk ans Server.order { w with summary := some [summaryHeader] }
        if ended.1 = 0 then (if ans.announced then 0 else 1, ended.2) else ended := by
      rw [writeSummary, hcreate]
      rfl
    have hwrites : (∀ server ∈ Server.order, Writes ans server) ↔
        ∀ server, Writes ans server :=
      ⟨fun h server => h server server.mem_order, fun h server _ => h server⟩
    have hrows := writeRows_log awk ans Server.order
      (w := { w with summary := some [summaryHeader] }) fun server _ => hlog server
    rw [heq]
    revert hrows
    dsimp only
    generalize writeRows awk ans Server.order { w with summary := some [summaryHeader] } = ended
    rintro ⟨hstatus, hsummary⟩
    by_cases hzero : ended.1 = 0
    · have hall := hwrites.mp (hstatus.mp hzero)
      rw [if_pos hzero]
      refine ⟨?_, fun _ => hsummary hzero⟩
      dsimp only
      split
      · next hannounced => exact iff_of_true rfl ⟨hcreate, hall, hannounced⟩
      · next hannounced => exact iff_of_false Nat.one_ne_zero fun h => hannounced h.2.2
    · rw [if_neg hzero]
      exact ⟨iff_of_false hzero fun h => hzero (hstatus.mpr (hwrites.mpr h.2.1)),
        fun h => absurd h hzero⟩
  · have heq : (writeSummary awk ans w).1 = 1 := by
      rw [writeSummary, if_neg hcreate]
    rw [heq]
    exact ⟨iff_of_false Nat.one_ne_zero fun h => hcreate h.1, fun h => absurd h Nat.one_ne_zero⟩

/-- What `write_summary` makes of a report: the throughput and the average latency, and
nothing for the rate and the P99, whose keys stand behind them. -/
theorem summaryRow_report {awk : Awk} (hawk : awk.Lawful) (r : Report) (server : Server) :
    summaryRow awk r.lines server =
      server.name.toList ++ ',' :: r.throughputMib.chars ++ ",,".toList ++
        r.avgLatencyMs.chars ++ [','] := by
  have hthroughput : extractMetric awk r.lines "throughput_mib_per_sec".toList =
      some r.throughputMib.chars :=
    LoadClient.extractMetric_report hawk r throughputMib (by decide) (by decide)
  have hrate : extractMetric awk r.lines "requests_per_sec".toList = none :=
    LoadClient.extractMetric_report hawk r requestsPerSec (by decide) (by decide)
  have havg : extractMetric awk r.lines "avg_latency_ms".toList = some r.avgLatencyMs.chars :=
    LoadClient.extractMetric_report hawk r LoadClient.avgLatencyMs
      (by decide) (by decide)
  have hp99 : extractMetric awk r.lines "p99_latency_ms".toList = none :=
    LoadClient.extractMetric_report hawk r LoadClient.p99LatencyMs
      (by decide) (by decide)
  simp only [summaryRow, metrics, List.flatMap_cons, List.flatMap_nil, hthroughput, hrate, havg,
    hp99, Option.getD_some, Option.getD_none, List.append_nil]
  simp

end Summary

/-! ## What the script leaves -/

/-- How the script has ended, and what it leaves. -/
structure Leaves (awk : Awk) (settings : Settings) (ans : Answers)
    (summary : Option (List (List Char))) (f : Nat × World) : Prop where
  /-- Each server has run alone, with its client; the only one that can be left running
  is the last, if the script has ended in its `sleep`. -/
  alone : ∃ done, done <+: Server.order ∧ (∀ server ∈ done.dropLast, Passes ans server) ∧
    (f.2.running = [] ∧ f.2.actions = done.flatMap (bout settings ans) ∨
      ∃ server, done ++ [server] <+: Server.order ∧ ans.sleep server ≠ 0 ∧
        f.1 = ans.sleep server ∧ f.2.running = [server] ∧
        f.2.actions =
          done.flatMap (bout settings ans) ++ [.spawn server (serverArgs settings server)])
  success_iff : f.1 = 0 ↔ ans.mkdir = 0 ∧ ans.executable = true ∧
    (∀ server, Passes ans server) ∧ ans.create = .written ∧ (∀ server, Writes ans server) ∧
    ans.announced = true
  /-- The summary of earlier runs is still there unless every client has succeeded. -/
  stale : f.2.summary = summary ∨ ∀ server, Passes ans server
  /-- The first client to fail ends the script with its status, if that can be said. -/
  first_failure : ∀ done server, done ++ [server] <+: Server.order → ans.mkdir = 0 →
    ans.executable = true → (∀ k ∈ done, Passes ans k) → ans.starting server = true →
    ans.sleep server = 0 → (ans.client server).status ≠ 0 →
    f.1 = (if ans.failed server then (ans.client server).status else 1) ∧
      f.2.summary = summary
  rows : ∀ report : Server → Report,
    (∀ server, (ans.client server).log = some (report server).lines) → f.1 = 0 →
    f.2.summary = some (summaryHeader :: Server.order.map fun server =>
      server.name.toList ++ ',' :: (report server).throughputMib.chars ++ ",,".toList ++
        (report server).avgLatencyMs.chars ++ [','])

section Whole

variable {awk : Awk} {settings : Settings} {ans : Answers}

/-- The first element without a property is where it is. -/
theorem first_unique {α : Type} {p : α → Prop} {xs ys as bs : List α} {x y : α}
    (h : xs ++ x :: as = ys ++ y :: bs) (hxs : ∀ k ∈ xs, p k) (hys : ∀ k ∈ ys, p k)
    (hx : ¬ p x) (hy : ¬ p y) : x = y := by
  induction xs generalizing ys with
  | nil =>
      cases ys with
      | nil => exact (List.cons.inj h).1
      | cons z ys =>
          obtain ⟨rfl, _⟩ := List.cons.inj h
          exact absurd (hys x List.mem_cons_self) hx
  | cons z xs ih =>
      cases ys with
      | nil =>
          obtain ⟨rfl, _⟩ := List.cons.inj h
          exact absurd (hxs z List.mem_cons_self) hy
      | cons z' ys =>
          obtain ⟨_, h⟩ := List.cons.inj h
          exact ih h (fun k hk => hxs k (List.mem_cons_of_mem _ hk))
            fun k hk => hys k (List.mem_cons_of_mem _ hk)

theorem not_passes_of_client {server : Server} (h : (ans.client server).status ≠ 0) :
    ¬ Passes ans server := fun hpass => h hpass.2.2

/-- A client that fails behind servers that pass is that of the first server that does
not. -/
theorem first_failed {done rest ys : List Server} {server y : Server}
    (hsplit : Server.order = done ++ server :: rest) (hdone : ∀ k ∈ done, Passes ans k)
    (hnot : ¬ Passes ans server) (hys : ys ++ [y] <+: Server.order)
    (hpass : ∀ k ∈ ys, Passes ans k) (hclient : (ans.client y).status ≠ 0) : y = server := by
  obtain ⟨bs, hys⟩ := hys
  rw [hsplit, List.append_assoc] at hys
  exact first_unique hys hpass hdone (not_passes_of_client hclient) hnot

/-- A client that has succeeded has left a log. -/
theorem exists_log {server : Server} (h : (ans.client server).status = 0) :
    ∃ log, (ans.client server).log = some log := by
  cases hclient : ans.client server with
  | unopened =>
      rw [hclient] at h
      cases h
  | ended status log => exact ⟨log, rfl⟩

/-- Before any server is started. -/
theorem leaves_early {status : Nat} {w : World} (hstatus : status ≠ 0)
    (hearly : ¬ (ans.mkdir = 0 ∧ ans.executable = true)) (hrunning : w.running = [])
    (hactions : w.actions = []) : Leaves awk settings ans w.summary (status, w) where
  alone := ⟨[], List.nil_prefix, fun _ h => absurd h List.not_mem_nil,
    .inl ⟨hrunning, hactions⟩⟩
  success_iff := iff_of_false hstatus fun h => hearly ⟨h.1, h.2.1⟩
  stale := .inl rfl
  first_failure _ _ _ hmkdir hexecutable := absurd ⟨hmkdir, hexecutable⟩ hearly
  rows _ _ h := absurd h hstatus

/-- When a server's first message has failed. -/
theorem leaves_silent {w : World} {done rest : List Server} {server : Server}
    (hrunning : w.running = []) (hactions : w.actions = [])
    (hsplit : Server.order = done ++ server :: rest) (hdone : ∀ k ∈ done, Passes ans k)
    (hstarting : ans.starting server ≠ true) :
    Leaves awk settings ans w.summary (1, w.after settings ans done) := by
  have hnot : ¬ Passes ans server := fun hpass => hstarting hpass.1
  refine ⟨⟨done, ⟨server :: rest, hsplit.symm⟩, ?_, .inl ⟨hrunning, ?_⟩⟩,
    iff_of_false Nat.one_ne_zero fun h => hnot (h.2.2.1 server), .inl rfl, ?_, ?_⟩
  · exact fun k hk => hdone k (List.dropLast_subset _ hk)
  · simp only [World.after, hactions, List.nil_append]
  · intro ys y hys _ _ hpass hstarted _ hclient
    have hsame := first_failed hsplit hdone hnot hys hpass hclient
    exact absurd (hsame ▸ hstarted) hstarting
  · exact fun _ _ h => absurd h Nat.one_ne_zero

/-- When a server's `sleep` has failed. -/
theorem leaves_asleep {w : World} {done rest : List Server} {server : Server}
    (hrunning : w.running = []) (hactions : w.actions = [])
    (hsplit : Server.order = done ++ server :: rest) (hdone : ∀ k ∈ done, Passes ans k)
    (hsleep : ans.sleep server ≠ 0) :
    Leaves awk settings ans w.summary
      (ans.sleep server, (w.after settings ans done).spawned settings server) := by
  have hnot : ¬ Passes ans server := fun hpass => hsleep hpass.2.1
  have hprefix : done ++ [server] <+: Server.order :=
    ⟨rest, by rw [hsplit, List.append_assoc, List.singleton_append]⟩
  refine ⟨⟨done, (List.prefix_append _ _).trans hprefix, ?_, .inr ⟨server, hprefix, hsleep, rfl,
    ?_, ?_⟩⟩, iff_of_false hsleep fun h => hnot (h.2.2.1 server), .inl rfl, ?_, ?_⟩
  · exact fun k hk => hdone k (List.dropLast_subset _ hk)
  · simp only [World.spawned, World.after, hrunning]
  · simp only [World.spawned, World.after, hactions, List.nil_append]
  · intro ys y hys _ _ hpass _ hslept hclient
    have hsame := first_failed hsplit hdone hnot hys hpass hclient
    exact absurd (hsame ▸ hslept) hsleep
  · exact fun _ _ h => absurd h hsleep

/-- When a client has failed. -/
theorem leaves_failed {w : World} {done rest : List Server} {server : Server}
    (hrunning : w.running = []) (hactions : w.actions = [])
    (hsplit : Server.order = done ++ server :: rest) (hdone : ∀ k ∈ done, Passes ans k)
    (hclient : (ans.client server).status ≠ 0) :
    Leaves awk settings ans w.summary
      (ans.failure server, w.after settings ans (done ++ [server])) := by
  have hnot := not_passes_of_client hclient
  have hfailure := failure_ne_zero hclient
  have hprefix : done ++ [server] <+: Server.order :=
    ⟨rest, by rw [hsplit, List.append_assoc, List.singleton_append]⟩
  refine ⟨⟨done ++ [server], hprefix, ?_, .inl ⟨hrunning, ?_⟩⟩,
    iff_of_false hfailure fun h => hnot (h.2.2.1 server), .inl rfl, ?_, ?_⟩
  · rw [List.dropLast_concat]
    exact hdone
  · simp only [World.after, hactions, List.nil_append]
  · intro ys y hys _ _ hpass _ _ hfail
    have hsame := first_failed hsplit hdone hnot hys hpass hfail
    exact ⟨by rw [hsame, Answers.failure], rfl⟩
  · exact fun _ _ h => absurd h hfailure

/-- When every client has succeeded. -/
theorem leaves_passed (hawk : awk.Lawful) {w : World} (hrunning : w.running = [])
    (hactions : w.actions = []) (hmkdir : ans.mkdir = 0) (hexecutable : ans.executable = true)
    (hpass : ∀ server, Passes ans server) :
    Leaves awk settings ans w.summary
      (writeSummary awk ans (w.after settings ans Server.order)) := by
  have hlog : ∀ server, (w.after settings ans Server.order).clientLog server =
      some ((ans.client server).log.getD []) := by
    intro server
    obtain ⟨log, hlog⟩ := exists_log (hpass server).2.2
    show (if server ∈ Server.order then _ else _) = _
    rw [if_pos server.mem_order, hlog]
    rfl
  obtain ⟨hstatus, hsummary⟩ := writeSummary_log awk ans hlog
  obtain ⟨hrunning', hactions'⟩ := writeSummary_frame awk ans (w.after settings ans Server.order)
  refine ⟨⟨Server.order, List.prefix_rfl, fun k _ => hpass k, .inl ⟨?_, ?_⟩⟩, ?_, .inr hpass,
    ?_, ?_⟩
  · rw [hrunning']
    exact hrunning
  · rw [hactions']
    simp only [World.after, hactions, List.nil_append]
  · rw [hstatus]
    constructor
    · exact fun h => ⟨hmkdir, hexecutable, hpass, h⟩
    · exact fun h => h.2.2.2
  · exact fun _ server _ _ _ _ _ _ hclient => absurd (hpass server).2.2 hclient
  · intro report hreport hzero
    rw [hsummary hzero]
    have hrows : (Server.order.map fun server =>
          summaryRow awk ((ans.client server).log.getD []) server) =
        Server.order.map fun server =>
          server.name.toList ++ ',' :: (report server).throughputMib.chars ++ ",,".toList ++
            (report server).avgLatencyMs.chars ++ [','] := by
      refine List.map_congr_left fun server _ => ?_
      rw [hreport server, Option.getD_some, summaryRow_report hawk]
    rw [hrows]

end Whole

/-- The script runs each server alone, with its client; it succeeds exactly if every
command it checks does; it stops at the first client that fails, with the status of
that client and the summary of earlier runs; and the summary of a run that succeeds
holds, from the reports of that run, the throughput and the average latency of each
server. -/
theorem script_reports {awk : Awk} (hawk : awk.Lawful) (settings : Settings) (ans : Answers)
    (clientLog : Server → Option (List (List Char))) (summary : Option (List (List Char))) :
    Leaves awk settings ans summary (script awk settings ans clientLog summary) := by
  rw [script]
  by_cases hmkdir : ans.mkdir = 0
  · rw [if_neg (not_not.mpr hmkdir)]
    by_cases hexecutable : ans.executable = true
    · rw [if_pos hexecutable]
      have hthrough : Through settings ans (World.start clientLog summary) Server.order
          (runAll settings ans Server.order (World.start clientLog summary)) :=
        runAll_through _ _
      revert hthrough
      generalize runAll settings ans Server.order (World.start clientLog summary) = f
      rintro (⟨h⟩ | ⟨done, rest, server, hsplit, hdone, hstarting⟩ |
        ⟨done, rest, server, hsplit, hdone, hsleep⟩ |
        ⟨done, rest, server, hsplit, hdone, hclient⟩)
      · rw [if_pos rfl]
        exact leaves_passed (w := World.start clientLog summary) hawk rfl rfl hmkdir hexecutable
          fun k => h k k.mem_order
      · rw [if_neg Nat.one_ne_zero]
        exact leaves_silent (w := World.start clientLog summary) rfl rfl hsplit hdone hstarting
      · rw [if_neg hsleep]
        exact leaves_asleep (w := World.start clientLog summary) rfl rfl hsplit hdone hsleep
      · rw [if_neg (failure_ne_zero hclient)]
        exact leaves_failed (w := World.start clientLog summary) rfl rfl hsplit hdone hclient
    · rw [if_neg hexecutable]
      exact leaves_early (w := World.start clientLog summary) Nat.one_ne_zero
        (fun h => hexecutable h.2) rfl rfl
  · rw [if_pos hmkdir]
    exact leaves_early (w := World.start clientLog summary) hmkdir (fun h => hmkdir h.1) rfl rfl

/-- A figure given by its text. -/
def figure (text : String) (h : LoadClient.IsWord text = true) (hno : '_' ∉ text.toList) :
    LoadClient.Figure where
  toWord := LoadClient.reportKey text h
  no_underscore := hno

/-- The report on `poll_server`. -/
def pollFigures : Report where
  connections := 64
  requestsPerConnection := 1000
  payloadSize := 1024
  totalRequests := 64000
  totalBytes := 131072000
  durationSec := figure "0.442636" (by decide) (by decide)
  throughputMib := figure "282.399" (by decide) (by decide)
  rps := figure "144588.364" (by decide) (by decide)
  avgLatencyMs := figure "0.025760" (by decide) (by decide)
  p99LatencyMs := figure "0.036117" (by decide) (by decide)

/-- Every command succeeds. -/
def allWell : Answers where
  mkdir := 0
  executable := true
  starting _ := true
  sleep _ := 0
  client _ := .ended 0 pollFigures.lines
  failed _ := true
  create := .written
  awk _ _ := 0
  append _ := .written
  announced := true

/-- The rate and the P99 are missing in every line. -/
theorem script_reports_all_well :
    (script Awk.simple defaultSettings allWell (fun _ => none) none).2.summary =
      some ["server,throughput_mib_per_sec,requests_per_sec,avg_latency_ms,p99_latency_ms".toList,
        "poll,282.399,,0.025760,".toList, "epoll,282.399,,0.025760,".toList,
        "threadpool,282.399,,0.025760,".toList, "io_uring,282.399,,0.025760,".toList] := by
  have hleaves := script_reports Awk.simple_lawful defaultSettings allWell (fun _ => none) none
  have hstatus : (script Awk.simple defaultSettings allWell (fun _ => none) none).1 = 0 :=
    hleaves.success_iff.mpr
      ⟨rfl, rfl, fun _ => ⟨rfl, rfl, rfl⟩, rfl, fun _ => ⟨fun _ _ => rfl, rfl⟩, rfl⟩
  rw [hleaves.rows (fun _ => pollFigures) (fun _ => rfl) hstatus]
  decide

end SysLab.PartB.RunBenchmarks
