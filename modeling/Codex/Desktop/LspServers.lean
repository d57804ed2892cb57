import Codex.Foundation.Decimal
import Codex.Foundation.Hub
import Codex.Foundation.Json

/-!
# The supervisor of language servers

A server is started and asked to initialize. The first frame that carries the id of that
request ends the handshake, whatever else it is; then the server gets an id, a task that
writes its queue to it and a task that reads what it sends, and it is entered in the table.
Notifications for a text document go to the queue of the server they name, diagnostics to
the parent with the id of the server they come from. The steps of all servers and of the
parent's requests may come in any order.
-/

namespace Codex.Desktop

open Foundation

/-! ## Requests of the parent -/

structure LspdEnv where
  version : Text
  processId : ℕ
  startParams : Json → Except Text (Text × Option Text)
  realSpawn : Bool

structure LspdRequest where
  id : Json
  method : Text
  params : Json

inductive LspdError where
  | unknownLanguage (lang : Text)
  | unknownServerId (id : Text)
  | spawnFailed (bin why : Text)
  | other (why : Text)

def number (n : Text) : Json := .number n

def responseOk (id result : Json) : Json :=
  .named [("jsonrpc", .string "2.0".toList), ("id", id), ("result", result)]

def responseError (id : Json) (code message : Text) : Json :=
  .named [("jsonrpc", .string "2.0".toList), ("id", id),
    ("error", .named [("code", number code), ("message", .string message)])]

def lspdErrorToJson (id : Json) : LspdError → Json
  | .unknownLanguage lang =>
    responseError id "-32602".toList ("unknown language: ".toList ++ lang)
  | .unknownServerId s => responseError id "-32602".toList ("unknown server_id: ".toList ++ s)
  | .spawnFailed bin why =>
    responseError id "-32001".toList ("failed to spawn `".toList ++ bin ++ "`: ".toList ++ why
      ++ " (is it on PATH? hint: `which ".toList ++ bin ++ "`)".toList)
  | .other why => responseError id "-32603".toList why

def respond (id : Json) : Except LspdError Json → Json
  | .ok v => responseOk id v
  | .error e => lspdErrorToJson id e

def serverInvocation (language : Text) : Option (Text × List Text) :=
  if language = "rust".toList then some ("rust-analyzer".toList, [])
  else if language = "python".toList then
    some ("pyright-langserver".toList, ["--stdio".toList])
  else if language = "typescript".toList ∨ language = "javascript".toList then
    some ("typescript-language-server".toList, ["--stdio".toList])
  else if language = "go".toList then some ("gopls".toList, [])
  else none

def lspNotification (method : Text) (params : Json) : Except LspdError Json :=
  let textDocument := (params.get "text_document".toList).getD .null
  let notification (lspMethod : String) (lspParams : Json) : Json :=
    .named [("jsonrpc", .string "2.0".toList), ("method", .string lspMethod.toList),
      ("params", lspParams)]
  if method = "lsp/textDocumentDidOpen".toList then
    .ok (notification "textDocument/didOpen" (.named [("textDocument", textDocument)]))
  else if method = "lsp/textDocumentDidChange".toList then
    .ok (notification "textDocument/didChange" (.named [("textDocument", textDocument),
      ("contentChanges", (params.get "content_changes".toList).getD (.array []))]))
  else if method = "lsp/textDocumentDidClose".toList then
    .ok (notification "textDocument/didClose" (.named [("textDocument", textDocument)]))
  else .error (.other ("unsupported forward method: ".toList ++ method))

/-! ## The handshake -/

def initializeRequest (env : LspdEnv) (rootUri : Option Text) : Json :=
  .named [("jsonrpc", .string "2.0".toList), ("id", number "1".toList),
    ("method", .string "initialize".toList),
    ("params", .named [
      ("processId", number (decimal env.processId)),
      ("rootUri", rootUri.elim .null .string),
      ("rootPath", .null),
      ("capabilities", .named [
        ("workspace", .named [("applyEdit", .bool false), ("workspaceEdit", .null)]),
        ("textDocument", .named [
          ("synchronization", .named [("didSave", .bool true)]),
          ("publishDiagnostics", .named [("relatedInformation", .bool false)])])]),
      ("clientInfo", .named [("name", .string "codex-lspd".toList),
        ("version", .string env.version)]),
      ("workspaceFolders", .null),
      ("trace", .string "off".toList)])]

def initializedNotification : Json :=
  .named [("jsonrpc", .string "2.0".toList), ("method", .string "initialized".toList),
    ("params", .object [])]

/-- What reading from a server gives: a frame, one that is not JSON, the end, or an error. -/
inductive LspRead where
  | json (value : Json)
  | notJson (e : Text)
  | closed
  | failed (e : Text)

def isOne : Json → Bool
  | .number n => n = "1".toList
  | _ => false

def hasIdOne (value : Json) : Bool := (value.get "id".toList).any isOne

/-- What the handshake makes of a read: it waits, it takes a frame as the reply, or it ends. -/
inductive Heard where
  | wait (value : Json)
  | replied (value capabilities : Json)
  | failed (e : LspdError)

def hear : LspRead → Heard
  | .failed e => .failed (.other ("read frame: ".toList ++ e))
  | .closed => .failed (.other "language server closed stdout before initialize reply".toList)
  | .notJson e => .failed (.other ("parse frame as JSON: ".toList ++ e))
  | .json value =>
    match value.get "id".toList with
    | none => .wait value
    | some id =>
      if isOne id then
        .replied value (((value.get "result".toList).bind (·.get "capabilities".toList)).getD
          (.object []))
      else .wait value

/-! ## Servers -/

inductive Phase where
  | starting
  | initialized (capabilities : Json)
  | numbered (id : Text) (capabilities : Json)
  | registered (id : Text)
  | failed

def Phase.id? : Phase → Option Text
  | .numbered id _ => some id
  | .registered id => some id
  | _ => none

def Phase.passed : Phase → Bool
  | .starting => false
  | .failed => false
  | _ => true

/-- `heard` are the frames read by the handshake, `enqueued` all that was put on the queue. -/
structure LspServer where
  requestId : Json
  phase : Phase
  heard : List Json
  stdin : List Json
  queue : List Json
  enqueued : List Json
  writing : Bool
  pumping : Bool

structure ForwardRequest where
  serverId : Text
  method : Text
  params : Json

/-- `out` is what the parent gets. `issued` are all ids with the server each was for,
`accepted` the forwards that succeeded, `forwarded` the diagnostics with their servers. -/
structure LspSupervisor where
  nextServerId : UInt64
  servers : Table Text ℕ
  procs : List LspServer
  out : List Json
  outOpen : Bool
  issued : List (Option ℕ × Text)
  accepted : List ForwardRequest
  forwarded : List (ℕ × Json)

def LspSupervisor.new : LspSupervisor := ⟨0, ∅, [], [], true, [], [], []⟩

namespace LspSupervisor

def send (s : LspSupervisor) (value : Json) : LspSupervisor :=
  if s.outOpen then { s with out := s.out ++ [value] } else s

def setServer (s : LspSupervisor) (p : ℕ) (srv : LspServer) : LspSupervisor :=
  { s with procs := s.procs.set p srv }

def nextId (s : LspSupervisor) (who : Option ℕ) : Text × LspSupervisor :=
  let id := "srv".toList ++ decimal s.nextServerId.toNat
  (id, { s with nextServerId := s.nextServerId + 1, issued := s.issued ++ [(who, id)] })

end LspSupervisor

inductive Spawned where
  | asked
  | notWritten (e : Text)
  | notSpawned (why : Text)

def newServer (env : LspdEnv) (requestId : Json) (rootUri : Option Text) : LspServer :=
  { requestId, phase := .starting, heard := [], stdin := [initializeRequest env rootUri]
    queue := [], enqueued := [], writing := false, pumping := false }

def placeholderNote : Text :=
  "spawn deferred; set CODEX_LSPD_REAL_SPAWN=1 to spawn the real server".toList

def handleLspStart (env : LspdEnv) (s : LspSupervisor) (req : LspdRequest) (spawned : Spawned) :
    LspSupervisor :=
  match env.startParams req.params with
  | .error e =>
    s.send (respond req.id (.error (.other ("invalid lsp/start params: ".toList ++ e))))
  | .ok (language, rootUri) =>
    match serverInvocation language with
    | none => s.send (respond req.id (.error (.unknownLanguage language)))
    | some (bin, args) =>
      if env.realSpawn then
        match spawned with
        | .asked => { s with procs := s.procs ++ [newServer env req.id rootUri] }
        | .notWritten e =>
          s.send (respond req.id (.error (.other ("write initialize: ".toList ++ e))))
        | .notSpawned why => s.send (respond req.id (.error (.spawnFailed bin why)))
      else
        let (id, s) := s.nextId none
        s.send (responseOk req.id (.named [("server_id", .string id),
          ("would_invoke", .named [("bin", .string bin), ("args", .array (args.map .string))]),
          ("note", .string placeholderNote)]))

def handleLspForward (s : LspSupervisor) (method : Text) (params : Json) :
    Except LspdError Json × LspSupervisor :=
  match (params.get "server_id".toList).bind Json.asStr with
  | none => (.error (.other "missing server_id".toList), s)
  | some serverId =>
    match lspNotification method params with
    | .error e => (.error e, s)
    | .ok notification =>
      match (s.servers.lookup serverId).bind fun p => (s.procs[p]?).map (p, ·) with
      | none => (.error (.unknownServerId serverId), s)
      | some (p, srv) =>
        if srv.writing then
          (.ok (.named [("forwarded", .bool true), ("server_id", .string serverId)]),
            { s.setServer p { srv with queue := srv.queue ++ [notification]
                                       enqueued := srv.enqueued ++ [notification] } with
              accepted := s.accepted ++ [⟨serverId, method, params⟩] })
        else
          (.error (.other ("server ".toList ++ serverId ++ " writer task is gone".toList)), s)

def supportedMethods : List String :=
  ["initialize", "lsp/start", "lsp/textDocumentDidOpen", "lsp/textDocumentDidChange",
    "lsp/textDocumentDidClose", "shutdown"]

def forwardMethods : List Text :=
  ["lsp/textDocumentDidOpen".toList, "lsp/textDocumentDidChange".toList,
    "lsp/textDocumentDidClose".toList]

def handleRequest (env : LspdEnv) (s : LspSupervisor) (req : LspdRequest) (spawned : Spawned) :
    LspSupervisor :=
  if req.method = "initialize".toList then
    s.send (responseOk req.id (.named [
      ("server_info", .named [("name", .string "codex-lspd".toList),
        ("version", .string env.version)]),
      ("protocol_version", .string "0.0.0-pr-u".toList),
      ("supported_methods", .array (supportedMethods.map fun m => .string m.toList)),
      ("supported_notifications",
        .array [.string "textDocument/publishDiagnostics".toList])]))
  else if req.method = "lsp/start".toList then handleLspStart env s req spawned
  else if req.method ∈ forwardMethods then
    let (result, s) := handleLspForward s req.method req.params
    s.send (respond req.id result)
  else if req.method = "shutdown".toList then
    s.send (responseOk req.id (.named [("shutdown", .bool true), ("ok", .bool true)]))
  else
    s.send (responseError req.id "-32601".toList ("method not found: ".toList ++ req.method))

/-! ## The tasks of a server -/

def publishDiagnostics : Text := "textDocument/publishDiagnostics".toList

def isDiagnostics (value : Json) : Bool :=
  ((value.get "method".toList).bind Json.asStr) = some publishDiagnostics

/-- Diagnostics with the id of their server, if their parameters can carry it. -/
def tagDiagnostics (serverId : Text) (value : Json) : Json :=
  let params := (value.get "params".toList).getD (.object [])
  .named [("jsonrpc", .string "2.0".toList), ("method", .string publishDiagnostics),
    ("params", params.insertField "server_id".toList (.string serverId))]

def pump (serverId : Text) (outOpen : Bool) : LspRead → Option (Option Json)
  | .json value =>
    if isDiagnostics value then
      if outOpen then some (some (tagDiagnostics serverId value)) else none
    else some none
  | .notJson _ => some none
  | .closed => none
  | .failed _ => none

def LspSupervisor.fail (s : LspSupervisor) (p : ℕ) (srv : LspServer) (e : LspdError) :
    LspSupervisor :=
  (s.setServer p { srv with phase := .failed }).send (lspdErrorToJson srv.requestId e)

def handshakeStep (s : LspSupervisor) (p : ℕ) (srv : LspServer) (read : LspRead) :
    LspSupervisor :=
  match hear read with
  | .wait value => s.setServer p { srv with heard := srv.heard ++ [value] }
  | .replied value capabilities =>
    s.setServer p { srv with heard := srv.heard ++ [value], phase := .initialized capabilities }
  | .failed e => s.fail p srv e

def pumpStep (s : LspSupervisor) (p : ℕ) (srv : LspServer) (id : Text) (read : LspRead) :
    LspSupervisor :=
  match pump id s.outOpen read with
  | none => s.setServer p { srv with pumping := false }
  | some none => s
  | some (some m) => { s with out := s.out ++ [m], forwarded := s.forwarded ++ [(p, m)] }

/-- Until it is initialized the handshake reads what a server sends, then its pump. -/
def readStep (s : LspSupervisor) (p : ℕ) (srv : LspServer) (read : LspRead) :
    Except Unit LspSupervisor :=
  match srv.phase with
  | .starting => .ok (handshakeStep s p srv read)
  | .numbered id _ => if srv.pumping then .ok (pumpStep s p srv id read) else .error ()
  | .registered id => if srv.pumping then .ok (pumpStep s p srv id read) else .error ()
  | _ => .error ()

inductive LspdAction where
  | request (req : LspdRequest) (spawned : Spawned)
  | read (p : ℕ) (read : LspRead)
  | timeout (p : ℕ)
  | install (p : ℕ) (written : Bool)
  | register (p : ℕ)
  | write (p : ℕ) (written : Bool)
  | closeOut

/-- After the reply: `initialized` is sent if it can be, an id is taken, the tasks start. -/
def installStep (s : LspSupervisor) (p : ℕ) (srv : LspServer) (written : Bool) :
    Except Unit LspSupervisor :=
  match srv.phase with
  | .initialized capabilities =>
    let (id, s) := s.nextId (some p)
    .ok (s.setServer p
      { srv with phase := .numbered id capabilities, writing := true, pumping := true
                 stdin := if written then srv.stdin ++ [initializedNotification]
                   else srv.stdin })
  | _ => .error ()

def registerStep (s : LspSupervisor) (p : ℕ) (srv : LspServer) : Except Unit LspSupervisor :=
  match srv.phase with
  | .numbered id capabilities =>
    .ok (({ s with servers := s.servers.insert id p }.setServer p
      { srv with phase := .registered id }).send (responseOk srv.requestId
        (.named [("server_id", .string id), ("capabilities", capabilities)])))
  | _ => .error ()

def writeStep (s : LspSupervisor) (p : ℕ) (srv : LspServer) (written : Bool) :
    Except Unit LspSupervisor :=
  match srv.writing, srv.queue with
  | true, notification :: queue =>
    .ok (s.setServer p
      (if written then { srv with stdin := srv.stdin ++ [notification], queue }
        else { srv with queue, writing := false }))
  | _, _ => .error ()

def timeoutStep (s : LspSupervisor) (p : ℕ) (srv : LspServer) : Except Unit LspSupervisor :=
  match srv.phase with
  | .starting => .ok (s.fail p srv (.other "initialize timed out after 30s".toList))
  | _ => .error ()

def onServer (s : LspSupervisor) (p : ℕ) (f : LspServer → Except Unit LspSupervisor) :
    Except Unit LspSupervisor :=
  match s.procs[p]? with
  | some srv => f srv
  | none => .error ()

def lspdStep (env : LspdEnv) (s : LspSupervisor) : LspdAction → Except Unit LspSupervisor
  | .request req spawned => .ok (handleRequest env s req spawned)
  | .read p read => onServer s p fun srv => readStep s p srv read
  | .timeout p => onServer s p (timeoutStep s p)
  | .install p written => onServer s p fun srv => installStep s p srv written
  | .register p => onServer s p (registerStep s p)
  | .write p written => onServer s p fun srv => writeStep s p srv written
  | .closeOut => .ok { s with outOpen := false }

end Codex.Desktop
