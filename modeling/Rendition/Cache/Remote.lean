import Rendition.Cache.Basic
import Rendition.Cache.Reply

/-!
# Rendition.Cache.Remote

A store on a server. The connection is opened by the first command that needs it and is kept. After
a command that failed, for whatever reason, it is dropped, so that the next one opens a new one.

Replies come as bytes and carry no mark of the command that they answer. What a server sends beyond
one reply stays on the connection and counts as the reply to the next command.
-/

namespace Rendition

/-- A command to a store server. -/
structure StoreCommand where
  name : String
  arguments : List Content

/-- The command with its name, as it is sent. -/
def StoreCommand.words (c : StoreCommand) : List Content :=
  .text c.name :: c.arguments

/-- A store server with the state `σ`, as it shows at the other end of a connection. -/
structure StoreServer (σ : Type) where
  /-- Opens a connection; the answer is whether there is one. -/
  connect : StateM σ Bool
  /-- Sends a command on the open connection; the answer is what comes back, or `none` if the server
  closes the connection. -/
  send : (command : StoreCommand) → StateM σ (Option (List UInt8))

/-- The address at which nothing listens. -/
def StoreServer.absent : StoreServer Unit where
  connect := pure false
  send _ := pure none

/-- A connection to a store server. -/
structure StoreConnection where
  /-- The bytes that came back and were not read yet. -/
  unread : List UInt8
  /-- Has the server not closed it? -/
  isOpen : Bool

/-- A connection on which nothing has come back yet. -/
def StoreConnection.fresh : StoreConnection := ⟨[], true⟩

/-- A store on a server, and the connection to it, if there is one. -/
structure RemoteCache (σ : Type) where
  server : σ
  connection : Option StoreConnection

namespace RemoteCache

variable {σ α : Type} (server : StoreServer σ)

/-- A store before the first command. -/
def lazily (state : σ) : RemoteCache σ := ⟨state, none⟩

/-- Uses the server. -/
def atServer (m : StateM σ α) : CacheM (RemoteCache σ) α := do
  let r ← get
  let (a, state) := m.run r.server
  set { r with server := state }
  pure a

/-- The error that reports a failed step, with its reason. -/
def unavailable (step reason : String) : Halt :=
  .failed (.storeUnavailable ⟨step, some reason⟩)

/-- The connection, which is opened if there is none. -/
def connected : CacheM (RemoteCache σ) StoreConnection := do
  match (← get).connection with
  | some connection => pure connection
  | none =>
    if ← atServer server.connect then pure .fresh
    else throw (unavailable "connect" "connection refused")

/-- The connection after a command was sent on it. -/
def sent (command : StoreCommand) (connection : StoreConnection) :
    CacheM (RemoteCache σ) StoreConnection := do
  if connection.isOpen then
    match ← atServer (server.send command) with
    | some bytes => pure { connection with unread := connection.unread ++ bytes }
    | none => pure { connection with isOpen := false }
  else pure connection

/-- Drops the connection after a failed command. -/
def giveUp (command : StoreCommand) (reason : String) : CacheM (RemoteCache σ) α := do
  modify fun r => { r with connection := none }
  throw (unavailable command.name reason)

/-- Sends a command and takes from its reply what it asked for. -/
def request (command : StoreCommand) (accept : Reply → Option α) :
    CacheM (RemoteCache σ) α := do
  let connection ← sent server command (← connected server)
  match Reply.next? connection.unread with
  | none => giveUp command "no reply"
  | some (.failure text, _) => giveUp command text
  | some (reply, unread) =>
    match accept reply with
    | none => giveUp command "unexpected reply"
    | some a =>
      modify fun r => { r with connection := some { connection with unread } }
      pure a

/-- The most seconds that a server can be told. -/
def longestTtl : Nat := 0x7fffffffffffffff

/-- The seconds for which a server is told to keep an entry: whole ones, and one at least. -/
def ttlSeconds (ttl : Time.Duration) : Nat :=
  max 1 (min longestTtl ttl.seconds)

/-- The store. -/
def cache : Cache (RemoteCache σ) where
  get key := request server ⟨"GET", [.text key]⟩ Reply.content?
  set key content := request server ⟨"SET", [.text key, content]⟩ fun _ => some ()
  expire key ttl :=
    request server ⟨"EXPIRE", [.text key, .text (toString (ttlSeconds ttl))]⟩ fun _ => some ()

end RemoteCache

end Rendition
