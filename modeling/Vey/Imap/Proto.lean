import Vey.Http.RequestHead

/-! The lines of IMAP: commands of the client, responses of the server, and the commands that wait for
    their result.

    A command line is a tag, a word and parameters. It may end in a literal, `{n}` or `{n+}`: then
    `n` raw bytes follow the line, and the command goes on behind them. Before the bytes of `{n}` the
    client waits for a continuation request of the server; the bytes of `{n+}` follow at once. -/

namespace Vey.Imap
open Schemes Vey.Types

/-! ### Commands -/

inductive CommandLineError where
  | noTrailingSequence
  | notTagPrefixed
  | invalidUtf8Command
  | invalidLiteralFormat
  | invalidLiteralSize

def CommandLineError.text : CommandLineError → Bytes
  | .noTrailingSequence => ascii "no trailing sequence"
  | .notTagPrefixed => ascii "no tag found as a prefix"
  | .invalidUtf8Command => ascii "invalid utf-8 command"
  | .invalidLiteralFormat => ascii "invalid literal format"
  | .invalidLiteralSize => ascii "invalid literal size"

inductive ParsedCommand where
  | capability | noOperation | logout | startTls | auth | login | enable | select | examine
  | create | delete | rename | subscribe | unsubscribe | list | lsub | namespace | status
  | append | idle | close | unselect | expunge | search | fetch | store | copy | move | uid | id
  | cancelUpdate | sort | thread | language | comparator | esearch | getQuota | getQuotaRoot
  | setQuota | setAcl | deleteAcl | getAcl | listRights | myRights | conversions | convert
  | setMetadata | getMetadata | notify | unAuthenticate | resetKey | genUrlAuth | urlFetch
  | unknown
  deriving DecidableEq

structure LiteralArgument where
  size : Nat
  waitContinuation : Bool
  deriving DecidableEq

namespace LiteralArgument

variable [AtoiRadix10]

/-- The text between the braces. -/
def parseSize (buf : Bytes) : Except CommandLineError LiteralArgument :=
  if buf = [] then .error .invalidLiteralFormat
  else
    match fromRadix10Checked 64 buf with
    | (none, _) => .error .invalidLiteralSize
    | (some size, offset) =>
      if offset = 0 then .error .invalidLiteralFormat
      else if offset = buf.length then .ok ⟨size, true⟩
      else if offset + 1 = buf.length ∧ buf.getD offset 0 = 43 then .ok ⟨size, false⟩
      else .error .invalidLiteralFormat

def check (left : Bytes) : Except CommandLineError (Option LiteralArgument) :=
  if left.getLast? = some 125 then
    match memrchr 123 left with
    | some p => some <$> parseSize (win left (p + 1) (left.length - 1))
    | none => .ok none
  else .ok none

end LiteralArgument

/-- The names that `Debug` prints, in the order of the constructors. -/
def ParsedCommand.debugNames : List String := [
  "Capability", "NoOperation", "Logout", "StartTls", "Auth", "Login", "Enable", "Select",
  "Examine", "Create", "Delete", "Rename", "Subscribe", "Unsubscribe", "List", "Lsub",
  "Namespace", "Status", "Append", "Idle", "Close", "Unselect", "Expunge", "Search", "Fetch",
  "Store", "Copy", "Move", "Uid", "Id", "CancelUpdate", "Sort", "Thread", "Language",
  "Comparator", "Esearch", "GetQuota", "GetQuotaRoot", "SetQuota", "SetAcl", "DeleteAcl",
  "GetAcl", "ListRights", "MyRights", "Conversions", "Convert", "SetMetadata", "GetMetadata",
  "Notify", "UnAuthenticate", "ResetKey", "GenUrlAuth", "UrlFetch", "Unknown"]

/-- A command of the client. -/
structure Command where
  tag : Bytes
  parsed : ParsedCommand
  literalArg : Option LiteralArgument
  deriving DecidableEq

namespace Command

/-- `Display`: the command and its tag. -/
def display (cmd : Command) : Bytes :=
  ascii (ParsedCommand.debugNames.getD cmd.parsed.ctorIdx "") ++ ascii "/" ++ cmd.tag

/-- Commands with parameters. -/
def withParams : List (Bytes × ParsedCommand) := [
  (ascii "AUTHENTICATE", .auth), (ascii "LOGIN", .login), (ascii "ENABLE", .enable),
  (ascii "SELECT", .select), (ascii "EXAMINE", .examine), (ascii "CREATE", .create),
  (ascii "DELETE", .delete), (ascii "RENAME", .rename), (ascii "SUBSCRIBE", .subscribe),
  (ascii "UNSUBSCRIBE", .unsubscribe), (ascii "LIST", .list), (ascii "LSUB", .lsub),
  (ascii "STATUS", .status), (ascii "APPEND", .append), (ascii "SEARCH", .search),
  (ascii "FETCH", .fetch), (ascii "STORE", .store), (ascii "COPY", .copy), (ascii "MOVE", .move),
  (ascii "UID", .uid), (ascii "ID", .id), (ascii "CANCELUPDATE", .cancelUpdate),
  (ascii "SORT", .sort), (ascii "THREAD", .thread), (ascii "LANGUAGE", .language),
  (ascii "COMPARATOR", .comparator), (ascii "ESEARCH", .esearch), (ascii "GETQUOTA", .getQuota),
  (ascii "GETQUOTAROOT", .getQuotaRoot), (ascii "SETQUOTA", .setQuota), (ascii "GETACL", .getAcl),
  (ascii "DELETEACL", .deleteAcl), (ascii "SETACL", .setAcl), (ascii "LISTRIGHTS", .listRights),
  (ascii "MYRIGHTS", .myRights), (ascii "CONVERSIONS", .conversions), (ascii "CONVERT", .convert),
  (ascii "GETMETADATA", .getMetadata), (ascii "SETMETADATA", .setMetadata),
  (ascii "NOTIFY", .notify), (ascii "RESETKEY", .resetKey), (ascii "GENURLAUTH", .genUrlAuth),
  (ascii "URLFETCH", .urlFetch)]

/-- Commands without parameters. -/
def withoutParams : List (Bytes × ParsedCommand) := [
  (ascii "CAPABILITY", .capability), (ascii "NOOP", .noOperation), (ascii "LOGOUT", .logout),
  (ascii "STARTTLS", .startTls), (ascii "NAMESPACE", .namespace), (ascii "IDLE", .idle),
  (ascii "CLOSE", .close), (ascii "UNSELECT", .unselect), (ascii "EXPUNGE", .expunge),
  (ascii "LANGUAGE", .language), (ascii "COMPARATOR", .comparator),
  (ascii "UNAUTHENTICATE", .unAuthenticate), (ascii "RESETKEY", .resetKey)]

def lookup (table : List (Bytes × ParsedCommand)) (cmd : Bytes) : ParsedCommand :=
  (table.lookup cmd).getD .unknown

/-- `str::from_utf8` with its error mapped. -/
def textOf (b : Bytes) : Except CommandLineError Bytes :=
  if validUtf8 b then .ok b else .error .invalidUtf8Command

variable [TextFunctions] [AtoiRadix10]

/-- The part of the line behind the tag. -/
def parseTagged (tag left : Bytes) : Except CommandLineError Command :=
  match memchr 32 left with
  | some p => do
    let cmd ← textOf (left.take p)
    let literalArg ← LiteralArgument.check (left.drop (p + 1))
    return ⟨tag, lookup withParams (toUppercase cmd), literalArg⟩
  | none => do
    let cmd ← textOf left
    return ⟨tag, lookup withoutParams (toUppercase cmd), none⟩

def parseLine (line : Bytes) : Except CommandLineError Command :=
  match stripSuffix [cr, lf] line with
  | none => .error .noTrailingSequence
  | some left =>
    match memchr 32 left with
    | none => .error .notTagPrefixed
    | some d => do
      let tag ← textOf (left.take d)
      if left.drop (d + 1) = [] then .error .notTagPrefixed
      else parseTagged tag (left.drop (d + 1))

/-- A line behind a literal. -/
def parseContinueLine (c : Command) (line : Bytes) : Except CommandLineError Command :=
  match stripSuffix [cr, lf] line with
  | none => .error .noTrailingSequence
  | some left =>
    if left = [] then .ok { c with literalArg := none }
    else do
      let literalArg ← LiteralArgument.check left
      return { c with literalArg := literalArg }

end Command

example : Command.parseLine (ascii "a append box \x7b12+\x7d\r\n") =
    .ok ⟨ascii "a", .append, some ⟨12, false⟩⟩ := by rfl

/-! ### Responses -/

inductive ResponseLineError where
  | noTrailingSequence
  | notTagPrefixed
  | invalidUtf8Response
  | noResultField
  | invalidTaggedResult
  | unknownUntaggedResult
  | invalidLiteralSize
  deriving DecidableEq

def ResponseLineError.text : ResponseLineError → Bytes
  | .noTrailingSequence => ascii "no trailing sequence"
  | .notTagPrefixed => ascii "no tag found as a prefix"
  | .invalidUtf8Response => ascii "invalid utf-8 response"
  | .noResultField => ascii "no result field found"
  | .invalidTaggedResult => ascii "invalid tagged result"
  | .unknownUntaggedResult => ascii "unknown untagged result"
  | .invalidLiteralSize => ascii "invalid literal size"

inductive CommandResult where
  | success
  | fail
  | protocolError
  deriving DecidableEq

structure TaggedResponse where
  tag : Bytes
  result : CommandResult
  deriving DecidableEq

inductive ServerStatus where
  | information
  | warning
  | error
  | authenticated
  | close
  deriving DecidableEq

inductive CommandData where
  | enabled
  | capability
  | fetch
  | id
  | other
  deriving DecidableEq

structure UntaggedResponse where
  commandData : CommandData
  literalData : Option Nat
  deriving DecidableEq

inductive Response where
  | commandResult (r : TaggedResponse)
  | serverStatus (s : ServerStatus)
  | commandData (d : UntaggedResponse)
  | continuationRequest
  deriving DecidableEq

namespace Response

/-- `str::from_utf8` with its error mapped. -/
def textOf (b : Bytes) : Except ResponseLineError Bytes :=
  if validUtf8 b then .ok b else .error .invalidUtf8Response

section

variable [AtoiRadix10]

def checkLiteralSize (left : Bytes) : Except ResponseLineError (Option Nat) :=
  if left.getLast? = some 125 then
    match memrchr 123 left with
    | none => .ok none
    | some p =>
      let sizeS := win left (p + 1) (left.length - 1)
      if sizeS = [] then .error .invalidLiteralSize
      else
        match fromRadix10Checked 64 sizeS with
        | (none, _) => .error .invalidLiteralSize
        | (some size, offset) =>
          if offset = sizeS.length ∨ (offset + 1 = sizeS.length ∧ sizeS.getD offset 0 = 43) then
            .ok (some size)
          else .error .invalidLiteralSize
  else .ok none

variable [TextFunctions]

def parseTagged (tag left : Bytes) : Except ResponseLineError TaggedResponse := do
  let tag ← textOf tag
  match memchr 32 left with
  | none => .error .noResultField
  | some d =>
    let result := toUppercase (← textOf (left.take d))
    if result = ascii "OK" then .ok ⟨tag, .success⟩
    else if result = ascii "NO" then .ok ⟨tag, .fail⟩
    else if result = ascii "BAD" then .ok ⟨tag, .protocolError⟩
    else .error .invalidTaggedResult

/-- Server states. -/
def statuses : List (Bytes × ServerStatus) := [
  (ascii "OK", .information), (ascii "NO", .warning), (ascii "BAD", .error),
  (ascii "PREAUTH", .authenticated), (ascii "BYE", .close)]

/-- Data of a command, and whether a literal may end the line. -/
def dataKinds : List (Bytes × CommandData × Bool) := [
  (ascii "ENABLED", .enabled, false), (ascii "CAPABILITY", .capability, false),
  (ascii "ID", .id, true), (ascii "LIST", .other, true), (ascii "LSUB", .other, true),
  (ascii "NAMESPACE", .other, true), (ascii "STATUS", .other, true), (ascii "SEARCH", .other, true),
  (ascii "ESEARCH", .other, true), (ascii "FLAGS", .other, true), (ascii "SORT", .other, false),
  (ascii "THREAD", .other, false), (ascii "LANGUAGE", .other, true),
  (ascii "COMPARATOR", .other, true), (ascii "VANISHED", .other, false),
  (ascii "QUOTA", .other, true), (ascii "QUOTAROOT", .other, true), (ascii "ACL", .other, true),
  (ascii "LISTRIGHTS", .other, true), (ascii "MYRIGHTS", .other, true),
  (ascii "CONVERSION", .other, true), (ascii "CONVERTED", .other, true),
  (ascii "METADATA", .other, true), (ascii "GENURLAUTH", .other, true),
  (ascii "URLFETCH", .other, true)]

/-- A number and what it counts. -/
def parseNumbered (left : Bytes) : Except ResponseLineError Response :=
  match memchr 32 left with
  | some d => do
    let r2 ← textOf (left.take d)
    if toUppercase r2 = ascii "FETCH" then
      return .commandData ⟨.fetch, ← checkLiteralSize left⟩
    else .error .unknownUntaggedResult
  | none => do
    let r2 ← textOf left
    if toUppercase r2 ∈ [ascii "EXISTS", ascii "EXPUNGE", ascii "RECENT"] then
      return .commandData ⟨.other, none⟩
    else .error .unknownUntaggedResult

def parseUntagged (left : Bytes) : Except ResponseLineError Response :=
  match memchr 32 left with
  | some d => do
    let r1 := toUppercase (← textOf (left.take d))
    match statuses.lookup r1, dataKinds.lookup r1 with
    | some s, _ => return .serverStatus s
    | none, some (kind, true) => return .commandData ⟨kind, ← checkLiteralSize left⟩
    | none, some (kind, false) => return .commandData ⟨kind, none⟩
    | none, none => parseNumbered (left.drop (d + 1))
  | none => do
    let r1 ← textOf left
    if toUppercase r1 = ascii "SEARCH" then return .commandData ⟨.other, none⟩
    else .error .unknownUntaggedResult

def parseLine (line : Bytes) : Except ResponseLineError Response :=
  match stripSuffix [cr, lf] line with
  | none => .error .noTrailingSequence
  | some left =>
    -- "+" alone is an empty AUTHENTICATE challenge
    if left = ascii "+" then .ok .continuationRequest
    else
      match memchr 32 left with
      | none => .error .notTagPrefixed
      | some d =>
        if d = 0 then .error .notTagPrefixed
        else if left.take d = ascii "*" then parseUntagged (left.drop (d + 1))
        else if left.take d = ascii "+" then .ok .continuationRequest
        else .commandResult <$> parseTagged (left.take d) (left.drop (d + 1))

end

end Response

def UntaggedResponse.parseContinueLine [AtoiRadix10] (r : UntaggedResponse) (line : Bytes) :
    Except ResponseLineError UntaggedResponse :=
  match stripSuffix [cr, lf] line with
  | none => .error .noTrailingSequence
  | some left =>
    if left = [] then .ok { r with literalData := none }
    else do
      let literalData ← Response.checkLiteralSize left
      return { r with literalData := literalData }

/-! ### Commands that wait for their result -/

/-- `ongoingCommand` is the command whose line ended in a literal (or an IDLE command). -/
structure CommandPipeline where
  cachedCommands : List (Bytes × Command) := []
  ongoingCommand : Option Command := none
  ongoingResponse : Option UntaggedResponse := none

namespace CommandPipeline

variable (p : CommandPipeline)

/-- A command that waits for its result. -/
def insertCompleted (cmd : Command) : CommandPipeline :=
  { p with cachedCommands := (cmd.tag, cmd) :: p.cachedCommands.filter (·.1 ≠ cmd.tag) }

/-- The command that a result is for. -/
def remove (tag : Bytes) : Option Command × CommandPipeline :=
  match p.cachedCommands.lookup tag with
  | some cmd => (some cmd, { p with cachedCommands := p.cachedCommands.filter (·.1 ≠ tag) })
  | none =>
    match p.ongoingCommand with
    | some cmd => if cmd.tag = tag then (some cmd, { p with ongoingCommand := none }) else (none, p)
    | none => (none, p)

def setOngoingCommand (cmd : Command) : CommandPipeline :=
  { p with ongoingCommand := some cmd }

/-- `take_ongoing_command`, the state behind it. -/
def withoutOngoingCommand : CommandPipeline :=
  { p with ongoingCommand := none }

def setOngoingResponse (rsp : UntaggedResponse) : CommandPipeline :=
  { p with ongoingResponse := some rsp }

def withoutOngoingResponse : CommandPipeline :=
  { p with ongoingResponse := none }

end CommandPipeline

/-! ### Capabilities -/

/-- Capabilities with a value that are let through. -/
def valuedCapabilities : List Bytes := [
  ascii "AUTH", ascii "CONTEXT", ascii "I18NLEVEL", ascii "STATUS", ascii "QUOTA", ascii "RIGHTS",
  ascii "APPENDLIMIT", ascii "IMAPSIEVE", ascii "SEARCH", ascii "SORT", ascii "URLAUTH",
  ascii "UTF8"]

/-- Capabilities without one. -/
def plainCapabilities : List Bytes := [
  ascii "IMAP4", ascii "IMAP4REV1", ascii "IMAP4REV2", ascii "LOGINDISABLED", ascii "STARTTLS",
  ascii "UIDPLUS", ascii "SASL-IR", ascii "MOVE", ascii "ID", ascii "UNSELECT", ascii "CHILDREN",
  ascii "IDLE", ascii "NAMESPACE", ascii "ESEARCH", ascii "SEARCHRES", ascii "ENABLE",
  ascii "LIST-EXTENDED", ascii "LIST-STATUS", ascii "CREATE-SPECIAL-USE", ascii "SPECIAL-USE",
  ascii "BINARY", ascii "CONVERT", ascii "PARTIAL", ascii "ESORT", ascii "SORT", ascii "THREAD",
  ascii "LANGUAGE", ascii "MULTISEARCH", ascii "MULTIAPPEND", ascii "CONDSTORE", ascii "QRESYNC",
  ascii "QUOTA", ascii "QUOTASET", ascii "ACL", ascii "APPENDLIMIT", ascii "FILTERS",
  ascii "INPROGRESS", ascii "LIST-METADATA", ascii "LIST-MYRIGHTS", ascii "LOGIN-REFERRALS",
  ascii "MAILBOX-REFERRALS", ascii "METADATA", ascii "METADATA-SERVER", ascii "NOTIFY",
  ascii "OBJECTID", ascii "PREVIEW", ascii "REPLACE", ascii "SAVEDATE", ascii "UIDONLY",
  ascii "URLAUTH", ascii "WITHIN"]

/-- `check_supported` for one item; the state says whether a LITERAL capability was let through. -/
def checkSupported (hasNonSyncLiteral : Bool) (cap : Bytes) : Bool × Bool :=
  match memchr 61 cap with
  | some p => ((cap.take p).map upper ∈ valuedCapabilities, hasNonSyncLiteral)
  | none =>
    let name := cap.map upper
    if name = ascii "LITERAL+" ∨ name = ascii "LITERAL-" then
      if hasNonSyncLiteral then (false, true) else (true, true)
    else (name ∈ plainCapabilities, hasNonSyncLiteral)

/-- The items that are supported. -/
def supportedItems : Bool → List Bytes → List Bytes
  | _, [] => []
  | hasNonSyncLiteral, cap :: caps =>
    let (ok, hasNonSyncLiteral) := checkSupported hasNonSyncLiteral cap
    if ok then cap :: supportedItems hasNonSyncLiteral caps
    else supportedItems hasNonSyncLiteral caps

/-- `split_ascii_whitespace` -/
def splitWhitespace (b : Bytes) : List Bytes :=
  (b.splitOnP isAsciiWhitespace).filter (· ≠ [])

end Vey.Imap
