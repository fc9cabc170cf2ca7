import Vey.Imap.Relay

/-! What one step of the relay can do.

    Each line is said once what it leads to: `CmdAnswer` for a line of the client, `RspAnswer` for a
    line of the server, `ReadOn` for the steps between two lines. The results about literals, tags
    and responses are read off these. -/

namespace Vey.Imap
open Schemes Vey.Types IoExt Serve Command

/-- What takes no byte of the client. -/
def AfterClt.Quiet (next : AfterClt) : Prop :=
  next ≠ .authLine ∧ ∀ size, next ≠ .recvClientLiteral size

/-- The loop that runs behind the line, when `l` does now. -/
def AfterClt.ahead (l : RelayLoop) : AfterClt → RelayLoop
  | .authenticated _ | .startTls _ => .main
  | _ => l

theorem AfterClt.ahead_main (next : AfterClt) : next.ahead .main = .main := by
  cases next <;> rfl

theorem AfterClt.quiet_loop : AfterClt.loop.Quiet := ⟨nofun, nofun⟩

/-- The bytes of the client that follow the line to the server at once. -/
def AfterUps.owes : AfterUps → Nat
  | .sendLiteral size => size
  | .continued ⟨_, _, some ⟨size, false⟩⟩ => size
  | _ => 0

def AfterClt.owes : AfterClt → Nat
  | .recvClientLiteral size => size
  | _ => 0

/-- The bytes of the server that follow the line to the client at once. -/
def AfterClt.brings : AfterClt → Nat
  | .sendLiteral size => size
  | .continued ⟨_, some size⟩ => size
  | _ => 0

namespace Relay

variable {cmdCap rspCap : Nat} {χ ω : Type} (s : Relay cmdCap rspCap χ ω)

/-- The loops that read the client and the server. -/
def readsBoth : Bool := s.inLoop == .main || s.inLoop == .idle

/-! ### Between two lines -/

/-- The points at which the next line is found. -/
def Reads : Prop :=
  match s.pc with
  | .select | .pollCmd _ | .pollRsp _ | .tick | .cmdLine _ | .rspLine _ => True
  | _ => False

/-- The relay goes on reading: nothing but the input changes. -/
structure ReadOn (s t : Relay cmdCap rspCap χ ω) : Prop where
  reads : t.Reads
  pipeline : t.cmdPipeline = s.cmdPipeline
  inLoop : t.inLoop = s.inLoop
  mode : t.mode = s.mode

theorem nextRound_readOn : s.nextRound.Keeps s.ReadOn := by
  unfold nextRound
  split <;> exact ⟨trivial, rfl, rfl, rfl⟩

theorem chooseBranch_readOn : s.chooseBranch.Keeps s.ReadOn := by
  unfold chooseBranch
  split
  case h_4 => split <;> exact ⟨trivial, rfl, rfl, rfl⟩
  all_goals exact ⟨trivial, rfl, rfl, rfl⟩

theorem pollCmd_readOn (more : Bool) (hpc : s.pc = .pollCmd more) :
    (s.pollCmd more).Keeps s.ReadOn := by
  unfold pollCmd
  split
  case h_1 => exact ⟨by simp only [Reads, hpc], rfl, rfl, rfl⟩
  case h_2 => dsimp only; split <;> exact ⟨trivial, rfl, rfl, rfl⟩
  case h_3 => exact trivial
  case h_4 => exact ⟨trivial, rfl, rfl, rfl⟩

theorem pollRsp_readOn (more : Bool) (hpc : s.pc = .pollRsp more) :
    (s.pollRsp more).Keeps s.ReadOn := by
  unfold pollRsp
  split
  case h_1 => exact ⟨by simp only [Reads, hpc], rfl, rfl, rfl⟩
  case h_2 =>
    dsimp only
    split
    case h_3 => exact ⟨by simp only [Reads, hpc], rfl, rfl, rfl⟩
    all_goals split <;> exact ⟨trivial, rfl, rfl, rfl⟩
  case h_3 => exact trivial
  case h_4 => exact ⟨trivial, rfl, rfl, rfl⟩

/-! ### Lines of the client -/

/-- Commands whose literal is relayed. -/
def relaysLiteral (c : ParsedCommand) : Prop :=
  match s.mode with
  | .notAuthenticated => c = .login
  | .authenticated => anyMailbox c = true ∨ (onMailbox c = true ∧ s.mailboxSelected = true)

/-- Commands that an authenticated client may always give. -/
def alwaysForwarded : List ParsedCommand := [.capability, .noOperation, .id, .logout, .idle]

theorem not_relaysLiteral_idle : ¬ s.relaysLiteral .idle := by
  unfold relaysLiteral
  split
  · decide
  · rintro (h | ⟨h, -⟩) <;> exact absurd h (by decide)

section

variable [TextFunctions] [AtoiRadix10]

/-- What is sent for a line of the client, what the pipeline then knows and what is to follow. -/
inductive Records (line : Bytes) : Bytes → CommandPipeline → AfterUps → Prop where
  | completed {cmd : Command} (hnone : s.cmdPipeline.ongoingCommand = none)
      (hparse : Command.parseLine line = .ok cmd)
      (hlit : s.relaysLiteral cmd.parsed → cmd.literalArg = none) (sent : Bytes) {next : AfterUps}
      (hnext : next ∈ [.loop, .logout] ∨
        (s.mode = .notAuthenticated ∧ next ∈ [.startTls, .authenticate])) :
      Records line sent (s.cmdPipeline.insertCompleted cmd) next
  | opened {cmd : Command} {literal : LiteralArgument} (hnone : s.cmdPipeline.ongoingCommand = none)
      (hparse : Command.parseLine line = .ok cmd) (hrel : s.relaysLiteral cmd.parsed)
      (hlit : cmd.literalArg = some literal) :
      Records line line (s.cmdPipeline.setOngoingCommand cmd)
        (if literal.waitContinuation then .loop else .sendLiteral literal.size)
  | idle {cmd : Command} (hnone : s.cmdPipeline.ongoingCommand = none)
      (hparse : Command.parseLine line = .ok cmd) (hrel : ¬ s.relaysLiteral cmd.parsed)
      (hidle : cmd.parsed = .idle) : Records line line (s.cmdPipeline.setOngoingCommand cmd) .idle
  | continued {cmd cmd' : Command} (hcmd : s.cmdPipeline.ongoingCommand = some cmd)
      (hparse : cmd.parseContinueLine line = .ok cmd') :
      Records line line s.cmdPipeline.withoutOngoingCommand (.continued cmd')

/-- The answers to a command line: a failure, a reply of the proxy, or a line that is sent to the
    server. -/
inductive CmdAnswer (line : Bytes) : Step cmdCap rspCap χ ω → Prop where
  | fail (p : CommandPipeline) (e : ServerTaskError) :
      CmdAnswer line ({ s with cmdPipeline := p }.fail e)
  | reply {cmd : Command} (hnone : s.cmdPipeline.ongoingCommand = none)
      (hparse : Command.parseLine line = .ok cmd) (hrel : ¬ s.relaysLiteral cmd.parsed)
      (hkind : s.mode = .authenticated → cmd.parsed ∉ alwaysForwarded) (sent : Bytes) :
      CmdAnswer line (s.sendClt sent .loop)
  | send {sent : Bytes} {p : CommandPipeline} {next : AfterUps} (h : s.Records line sent p next) :
      CmdAnswer line ({ s with cmdPipeline := p }.sendUps sent next)

variable {s} {cmd : Command} {line : Bytes}

section

variable (hnone : s.cmdPipeline.ongoingCommand = none) (hparse : parseLine line = .ok cmd)

include hnone hparse

theorem forwardWithLiteral_answer (hrel : s.relaysLiteral cmd.parsed) :
    s.CmdAnswer line (s.forwardWithLiteral cmd line) := by
  unfold forwardWithLiteral
  split
  case h_1 literal hlit => exact .send (.opened hnone hparse hrel hlit)
  case h_2 hlit => exact .send (.completed hnone hparse (fun _ => hlit) line (.inl (by decide)))

theorem handleEnableCommand_answer (hrel : ¬ s.relaysLiteral cmd.parsed)
    (hkind : cmd.parsed ∉ alwaysForwarded) : s.CmdAnswer line (s.handleEnableCommand cmd line) := by
  unfold handleEnableCommand
  split
  · split
    · split
      · exact .reply hnone hparse hrel (fun _ => hkind) _
      · exact .send (.completed hnone hparse (fun h => absurd h hrel) _ (.inl (by decide)))
    · exact .fail s.cmdPipeline _
  · exact .fail s.cmdPipeline _

theorem handleNotAuthenticatedCmd_answer (hmode : s.mode = .notAuthenticated) :
    s.CmdAnswer line (s.handleNotAuthenticatedCmd cmd line) := by
  have hrel : s.relaysLiteral cmd.parsed ↔ cmd.parsed = .login := by
    simp only [relaysLiteral, hmode]
  have hcomplete : cmd.parsed ≠ .login → ∀ next,
      (next ∈ [.loop, .logout] ∨ next ∈ [.startTls, .authenticate]) →
      s.CmdAnswer line (s.forwardCompleted cmd line next) := fun hne next hnext =>
    .send (.completed hnone hparse (fun h => absurd (hrel.mp h) hne) line
      (hnext.imp id fun h => ⟨hmode, h⟩))
  have hkind : s.mode = .authenticated → cmd.parsed ∉ alwaysForwarded := by
    intro h
    rw [hmode] at h
    cases h
  unfold handleNotAuthenticatedCmd
  split
  case h_5 heq =>
    have hne : cmd.parsed ≠ .login := by rw [heq]; decide
    split
    · exact .reply hnone hparse (fun h => hne (hrel.mp h)) hkind _
    · exact hcomplete hne _ (by decide)
  case h_7 heq => exact forwardWithLiteral_answer hnone hparse (hrel.mpr heq)
  case h_8 hne => exact .reply hnone hparse (fun h => hne (hrel.mp h)) hkind _
  all_goals next heq => exact hcomplete (by rw [heq]; decide) _ (by decide)

theorem handleAuthenticatedCmd_answer (hmode : s.mode = .authenticated) :
    s.CmdAnswer line (s.handleAuthenticatedCmd cmd line) := by
  have hrel : s.relaysLiteral cmd.parsed ↔ anyMailbox cmd.parsed = true ∨
      (onMailbox cmd.parsed = true ∧ s.mailboxSelected = true) := by
    simp only [relaysLiteral, hmode]
  have hnot : (anyMailbox cmd.parsed || onMailbox cmd.parsed) = false →
      ¬ s.relaysLiteral cmd.parsed := by
    rw [hrel, Bool.or_eq_false_iff]
    rintro ⟨hany, hon⟩ (h | ⟨h, -⟩)
    · rw [hany] at h; cases h
    · rw [hon] at h; cases h
  have hcomplete : (anyMailbox cmd.parsed || onMailbox cmd.parsed) = false →
      ∀ next ∈ [.loop, .logout], s.CmdAnswer line (s.forwardCompleted cmd line next) :=
    fun h next hnext => .send (.completed hnone hparse (fun hr => absurd hr (hnot h)) line (.inl hnext))
  have hreply : cmd.parsed ∉ alwaysForwarded → ¬ s.relaysLiteral cmd.parsed →
      s.CmdAnswer line (s.replyInvalidCommand cmd) := fun hkind hr =>
    .reply hnone hparse hr (fun _ => hkind) _
  unfold handleAuthenticatedCmd
  split
  case h_5 heq | h_6 heq | h_7 heq =>
    exact hreply (by rw [heq]; decide) (hnot (by rw [heq]; decide))
  case h_8 heq =>
    exact handleEnableCommand_answer hnone hparse (hnot (by rw [heq]; decide)) (by rw [heq]; decide)
  case h_9 heq => exact .send (.idle hnone hparse (hnot (by rw [heq]; decide)) heq)
  case h_10 h1 h2 h3 h4 _ _ _ _ h9 =>
    have hkind : cmd.parsed ∉ alwaysForwarded := by
      simp only [alwaysForwarded, List.mem_cons, List.not_mem_nil, or_false]
      rintro (h | h | h | h | h)
      · exact h1 h
      · exact h2 h
      · exact h3 h
      · exact h4 h
      · exact h9 h
    split
    case isTrue h => exact forwardWithLiteral_answer hnone hparse (hrel.mpr (.inl h))
    case isFalse hany =>
      split
      case isTrue hon =>
        split
        case isTrue hsel =>
          exact forwardWithLiteral_answer hnone hparse (hrel.mpr (.inr ⟨hon, hsel⟩))
        case isFalse hsel =>
          refine hreply hkind ?_
          rw [hrel]
          rintro (h | ⟨-, h⟩)
          · exact hany h
          · exact hsel h
      case isFalse hon => exact hreply hkind (hnot (by simp [hany, hon]))
  all_goals next heq => exact hcomplete (by rw [heq]; decide) _ (by decide)

end

/-- Every command line, in both relays. -/
theorem handleCmdLine_answer (s : Relay cmdCap rspCap χ ω) (line : Bytes) :
    s.CmdAnswer line (s.handleCmdLine line) := by
  unfold handleCmdLine
  split
  case h_1 cmd hcmd =>
    split
    case h_1 cmd' hparse => exact .send (.continued hcmd hparse)
    case h_2 => exact .fail _ _
  case h_2 hnone =>
    split
    case h_1 => exact .fail s.cmdPipeline _
    case h_2 cmd hparse =>
      split
      case h_1 hmode => exact handleNotAuthenticatedCmd_answer hnone hparse hmode
      case h_2 hmode => exact handleAuthenticatedCmd_answer hnone hparse hmode

end

/-! ### Lines of the server -/

section

variable [TextFunctions] [AtoiRadix10]

/-- A server line is parsed as a response, not as the rest of one. -/
def ReadsRsp : Prop :=
  s.readsBoth = true → s.mode = .notAuthenticated ∨ s.cmdPipeline.ongoingResponse = none

/-- The line is the result of a command. -/
def Tagged (line : Bytes) (r : TaggedResponse) : Prop :=
  s.ReadsRsp ∧ Response.parseLine line = .ok (.commandResult r)

/-- The line is the request for the literal of the command under way, or for the next line of
    IDLE. -/
def Accepts (line : Bytes) : Prop :=
  s.readsBoth = true ∧ (s.mode = .notAuthenticated ∨ s.cmdPipeline.ongoingResponse = none) ∧
    Response.parseLine line = .ok .continuationRequest

/-- What a server line does to the commands: it is the result of one, or leaves them alone. -/
inductive Settles (line : Bytes) : CommandPipeline → Prop where
  | result {r : TaggedResponse} {cmd : Command} {p : CommandPipeline} (h : s.Tagged line r)
      (hremove : s.cmdPipeline.remove r.tag = (some cmd, p)) : Settles line p
  | other {p : CommandPipeline} (h : ∀ r, ¬ s.Tagged line r)
      (hcached : p.cachedCommands = s.cmdPipeline.cachedCommands)
      (hongoing : p.ongoingCommand = s.cmdPipeline.ongoingCommand) : Settles line p

/-- The answers to a line of the server, which is passed on as it is or filtered. -/
inductive RspAnswer (line : Bytes) (quiet : Prop) : Step cmdCap rspCap χ ω → Prop where
  | fail (p : CommandPipeline) (e : ServerTaskError) :
      RspAnswer line quiet ({ s with cmdPipeline := p }.fail e)
  | send {p : CommandPipeline} (hp : s.Settles line p) (sent : Bytes) {next : AfterClt}
      (hnext : quiet → next.Quiet) (hstays : s.readsBoth = true → next.ahead s.inLoop = s.inLoop) :
      RspAnswer line quiet ({ s with cmdPipeline := p }.sendClt sent next)
  | skip {p : CommandPipeline} (hp : s.Settles line p) {next : AfterClt} (hnext : next.Quiet)
      (hstays : next.ahead s.inLoop = s.inLoop) :
      RspAnswer line quiet ({ s with cmdPipeline := p }.afterClt next)

omit [TextFunctions] [AtoiRadix10] in
/-- What the result of a command leaves of the command that is under way. -/
theorem remove_ongoing {p p' : CommandPipeline} {tag : Bytes} {r : Option Command}
    (h : p.remove tag = (r, p')) :
    p'.ongoingCommand = p.ongoingCommand ∨ p'.ongoingCommand = none := by
  unfold CommandPipeline.remove at h
  split at h
  case h_1 => obtain ⟨-, rfl⟩ := Prod.mk.inj h; exact .inl rfl
  case h_2 =>
    split at h
    case h_1 =>
      split at h
      · obtain ⟨-, rfl⟩ := Prod.mk.inj h; exact .inr rfl
      · obtain ⟨-, rfl⟩ := Prod.mk.inj h; exact .inl rfl
    case h_2 => obtain ⟨-, rfl⟩ := Prod.mk.inj h; exact .inl rfl

variable {s} {line : Bytes} {quiet : Prop} {p : CommandPipeline} {next : AfterClt}

/-- A command that is under way stays so or has its result. -/
theorem Settles.ongoing (h : s.Settles line p) :
    p.ongoingCommand = s.cmdPipeline.ongoingCommand ∨ p.ongoingCommand = none := by
  cases h with
  | result _ hremove => exact remove_ongoing hremove
  | other _ _ hongoing => exact .inl hongoing

/-- A line that parses to something else is no result. -/
theorem not_tagged {rsp : Response} (hparse : Response.parseLine line = .ok rsp)
    (hne : ∀ r, rsp ≠ .commandResult r) (r : TaggedResponse) : ¬ s.Tagged line r := by
  rintro ⟨-, hr⟩
  exact hne r (Except.ok.inj (hparse.symm.trans hr))

theorem writeCapabilityResponse_answer (hp : s.Settles line p) (hnext : next.Quiet)
    (hstays : next.ahead s.inLoop = s.inLoop) :
    s.RspAnswer line quiet ({ s with cmdPipeline := p }.writeCapabilityResponse line next) := by
  unfold writeCapabilityResponse
  split
  · dsimp only
    split
    · exact .send hp _ (fun _ => hnext) fun _ => hstays
    · exact .fail _ _
  · exact .fail _ _

theorem writeCommandData_answer (kind : CommandData) (hp : s.Settles line p) (hnext : next.Quiet)
    (hstays : next.ahead s.inLoop = s.inLoop) :
    s.RspAnswer line quiet ({ s with cmdPipeline := p }.writeCommandData line kind next) := by
  unfold writeCommandData
  split
  case h_1 => exact writeCapabilityResponse_answer hp hnext hstays
  case h_2 =>
    unfold writeEnabledResponse
    split
    · split
      · split
        · exact .skip hp hnext hstays
        · exact .send hp _ (fun _ => hnext) fun _ => hstays
      · exact .fail _ _
    · exact .fail _ _
  case h_3 => exact .send hp _ (fun _ => hnext) fun _ => hstays

theorem handleRspLine_answer (hreads : s.ReadsRsp)
    (hquiet : quiet → Response.parseLine line ≠ .ok .continuationRequest) :
    s.RspAnswer line quiet (s.handleRspLine line) := by
  have hother : ∀ {rsp}, Response.parseLine line = .ok rsp → (∀ r, rsp ≠ .commandResult r) →
      s.Settles line s.cmdPipeline := fun hparse hne => .other (not_tagged hparse hne) rfl rfl
  unfold handleRspLine
  split
  case h_1 => exact .fail s.cmdPipeline _
  case h_2 r hparse =>
    split
    case h_1 => exact .fail s.cmdPipeline _
    case h_2 cmd p hremove =>
      exact .send (.result ⟨hreads, hparse⟩ hremove) _ (fun _ => ⟨by simp, by simp⟩) fun _ => rfl
  case h_3 hparse | h_4 hparse =>
    exact .send (hother hparse (by simp)) _ (fun _ => ⟨by simp, by simp⟩) fun _ => rfl
  case h_5 d hparse =>
    unfold handleCommandData
    split
    · exact writeCommandData_answer _ (.other (not_tagged hparse (by simp)) rfl rfl)
        ⟨by simp, by simp⟩ rfl
    · exact writeCommandData_answer _ (hother hparse (by simp)) AfterClt.quiet_loop rfl
  case h_6 hparse =>
    unfold handleContinuation
    split
    · exact .fail s.cmdPipeline _
    · split
      · exact .send (hother hparse (by simp)) _ (fun _ => AfterClt.quiet_loop) fun _ => rfl
      · split
        · exact .fail s.cmdPipeline _
        · exact .send (hother hparse (by simp)) _ (fun h => absurd hparse (hquiet h)) fun _ => rfl

theorem handleRspOf_answer (hboth : s.readsBoth = false) (cmd : ParsedCommand) (name : Bytes)
    (done : CommandResult → AfterClt) :
    s.RspAnswer line False (s.handleRspOf cmd name done line) := by
  have hnot : s.readsBoth ≠ true := by rw [hboth]; decide
  have hreads : s.ReadsRsp := fun h => absurd h hnot
  have hother : ∀ {rsp}, Response.parseLine line = .ok rsp → (∀ r, rsp ≠ .commandResult r) →
      s.Settles line s.cmdPipeline := fun hparse hne => .other (not_tagged hparse hne) rfl rfl
  unfold handleRspOf
  split
  case h_1 => exact .fail s.cmdPipeline _
  case h_2 r hparse =>
    split
    case h_1 => exact .fail s.cmdPipeline _
    case h_2 c p hremove =>
      split
      · exact .send (.result ⟨hreads, hparse⟩ hremove) _ False.elim (absurd · hnot)
      · exact .fail _ _
  case h_3 hparse | h_4 hparse => exact .send (hother hparse nofun) _ False.elim (absurd · hnot)
  case h_5 d hparse =>
    split
    · exact writeCapabilityResponse_answer (hother hparse nofun) AfterClt.quiet_loop rfl
    · exact .send (hother hparse nofun) _ False.elim (absurd · hnot)
  case h_6 hparse =>
    split
    · exact .send (hother hparse nofun) _ False.elim (absurd · hnot)
    · exact .fail s.cmdPipeline _

/-- A line that is not the rest of a response is parsed. -/
theorem handleRsp_of_reads (h : s.mode = .notAuthenticated ∨ s.cmdPipeline.ongoingResponse = none) :
    s.handleRsp line = s.handleRspLine line := by
  unfold handleRsp
  split
  case h_1 rsp hauth hsome =>
    rcases h with h | h
    · rw [h] at hauth; cases hauth
    · rw [h] at hsome; cases hsome
  case h_2 => rfl

/-- Every server line. Only a request for a literal, or one in the loop of AUTHENTICATE, leads to
    the client. -/
theorem handleRspIn_answer (s : Relay cmdCap rspCap χ ω) (line : Bytes) :
    s.RspAnswer line (s.readsBoth = true ∧ ¬ s.Accepts line) (s.handleRspIn line) := by
  have hrsp : s.readsBoth = true →
      s.RspAnswer line (s.readsBoth = true ∧ ¬ s.Accepts line) (s.handleRsp line) := by
    intro hboth
    unfold handleRsp
    split
    case h_1 rsp hmode hsome =>
      have hnot : ∀ r, ¬ s.Tagged line r := by
        rintro r ⟨hreads, -⟩
        rcases hreads hboth with h | h
        · rw [h] at hmode; cases hmode
        · rw [h] at hsome; cases hsome
      split
      · have hp : s.Settles line s.cmdPipeline.withoutOngoingResponse := .other hnot rfl rfl
        exact .send hp _ (fun _ => ⟨nofun, nofun⟩) fun _ => rfl
      · exact .fail _ _
    case h_2 hnot =>
      have hreads : s.mode = .notAuthenticated ∨ s.cmdPipeline.ongoingResponse = none := by
        cases hm : s.mode with
        | notAuthenticated => exact .inl rfl
        | authenticated =>
          cases ho : s.cmdPipeline.ongoingResponse with
          | none => exact .inr rfl
          | some rsp => exact absurd ho (hnot rsp hm)
      exact handleRspLine_answer (fun _ => hreads) fun h hcont => h.2 ⟨hboth, hreads, hcont⟩
  have hof : s.readsBoth = false → ∀ cmd name done,
      s.RspAnswer line (s.readsBoth = true ∧ ¬ s.Accepts line) (s.handleRspOf cmd name done line) := by
    intro hboth cmd name done
    rw [show (s.readsBoth = true ∧ ¬ s.Accepts line) = False by simp [hboth]]
    exact handleRspOf_answer hboth cmd name done
  unfold handleRspIn
  cases hl : s.inLoop with
  | main | idle => exact hrsp (by simp [readsBoth, hl])
  | authenticate | startTls => exact hof (by simp [readsBoth, hl]) _ _ _

end

/-! ### Behind a line -/

section

variable {s} {I : Relay cmdCap rspCap χ ω → Prop}

/-- A literal of the client is sent on, unless the relay ends. -/
theorem relayClientLiteral_rule {size : Nat}
    (h : ∀ icap, ({ s with icap := icap }.sendClientLiteral size).Keeps I) :
    (s.relayClientLiteral size).Keeps I := by
  unfold relayClientLiteral
  split
  case h_1 => exact trivial
  case h_2 =>
    split
    case isTrue =>
      split
      case h_1 | h_2 => exact trivial
      case h_3 | h_4 => exact h _
    case isFalse => exact h _

/-- What follows a line to the client: the end of the relay, the top of the loop, the next line of
    AUTHENTICATE or a literal. -/
inductive Follows (s : Relay cmdCap rspCap χ ω) (next : AfterClt) :
    Step cmdCap rspCap χ ω → Prop where
  | ends (o : Outcome) : Follows s next (s.finish o)
  | top {mode : Mode} (selected : Bool) (hbrings : next.brings = 0) (howes : next.owes = 0)
      (hmode : mode = s.mode ∨ mode = .authenticated) : Follows s next (.next { s with
        mode := mode, mailboxSelected := selected, inLoop := next.ahead s.inLoop, pc := .top })
  | authLine (h : next = .authLine) : Follows s next (.next { s with
      cmdRecvBuf := s.cmdRecvBuf.consumeLine, pc := .recvAuthLine })
  | server {p : CommandPipeline} (howes : next.owes = 0) (hp : p = s.cmdPipeline ∨
      ∃ rsp, next = .continued rsp ∧ rsp.literalData ≠ none ∧ s.inLoop ≠ .idle ∧
        p = s.cmdPipeline.setOngoingResponse rsp) (hstays : next.ahead s.inLoop = s.inLoop) :
      Follows s next ({ s with cmdPipeline := p }.relayServerLiteral next.brings)
  | client {size : Nat} (h : next = .recvClientLiteral size) :
      Follows s next (s.relayClientLiteral size)

theorem afterClt_follows (s : Relay cmdCap rspCap χ ω) (next : AfterClt) :
    s.Follows next (s.afterClt next) := by
  cases next with
  | loop => exact .top s.mailboxSelected rfl rfl (.inl rfl)
  | close => exact .ends _
  | result cmd result =>
    simp only [afterClt, withResult]
    split
    · split
      · exact .top s.mailboxSelected rfl rfl (.inr rfl)
      all_goals exact .top _ rfl rfl (.inl rfl)
    · exact .top s.mailboxSelected rfl rfl (.inl rfl)
  | authenticated result =>
    refine .top s.mailboxSelected rfl rfl ?_
    split
    · exact .inr rfl
    · exact .inl rfl
  | startTls result =>
    simp only [afterClt]
    split
    · exact .ends _
    · exact .top s.mailboxSelected rfl rfl (.inl rfl)
  | authLine => exact .authLine rfl
  | sendLiteral size => exact .server rfl (.inl rfl) rfl
  | recvClientLiteral size => exact .client rfl
  | continued rsp =>
    obtain ⟨kind, _ | size⟩ := rsp
    · exact .top s.mailboxSelected rfl rfl (.inl rfl)
    · simp only [afterClt]
      split
      case isTrue => exact .server rfl (.inl rfl) rfl
      case isFalse hloop => exact .server rfl (.inr ⟨_, rfl, nofun, hloop, rfl⟩) rfl

end

/-- The command whose further line is on its way to the server. -/
def flight : Option Command :=
  match s.pc with
  | .sendUps _ (.continued cmd) => some cmd
  | _ => none

/-- The commands are as before, and none is on its way. -/
structure KeepsCommands (s t : Relay cmdCap rspCap χ ω) : Prop where
  cached : t.cmdPipeline.cachedCommands = s.cmdPipeline.cachedCommands
  ongoing : t.cmdPipeline.ongoingCommand = s.cmdPipeline.ongoingCommand
  flight : t.flight = none

theorem relayClientLiteral_keeps (size : Nat) : (s.relayClientLiteral size).Keeps s.KeepsCommands :=
  relayClientLiteral_rule fun _ => ⟨rfl, rfl, rfl⟩

theorem afterClt_keeps (next : AfterClt) : (s.afterClt next).Keeps s.KeepsCommands := by
  have hfollows := afterClt_follows s next
  generalize s.afterClt next = c at hfollows
  cases hfollows with
  | ends => exact trivial
  | top | authLine => exact ⟨rfl, rfl, rfl⟩
  | server _ hp => rcases hp with rfl | ⟨rsp, -, -, -, rfl⟩ <;> exact ⟨rfl, rfl, rfl⟩
  | client => exact relayClientLiteral_keeps s _

/-- Behind a line to the server, unless it goes on with a command. -/
theorem afterUps_keeps {next : AfterUps} (h : ∀ cmd, next ≠ .continued cmd) :
    (s.afterUps next).Keeps s.KeepsCommands := by
  cases next with
  | logout => exact trivial
  | sendLiteral size => exact relayClientLiteral_keeps s size
  | continued cmd => exact absurd rfl (h cmd)
  | loop | authenticate | startTls | idle | idleDone => exact ⟨rfl, rfl, rfl⟩

/-! ### Steps without a line -/

/-- No line is handled, sent or dropped next. -/
def Coasting : Prop :=
  match s.pc with
  | .tick | .cmdLine _ | .rspLine _ | .sendUps _ _ | .sendClt _ _ => False
  | _ => True

theorem step_kinds : s.Coasting ∨ s.pc = .tick ∨ (∃ line, s.pc = .cmdLine line) ∨
    (∃ line, s.pc = .rspLine line) ∨ (∃ w next, s.pc = .sendUps w next) ∨
    ∃ w next, s.pc = .sendClt w next := by
  cases hpc : s.pc <;> simp [Coasting, hpc]

/-- Nothing but the streams changes; a line that is sent next is one of the client. -/
structure Coasts (s t : Relay cmdCap rspCap χ ω) : Prop where
  pipeline : t.cmdPipeline = s.cmdPipeline
  inLoop : t.inLoop = s.inLoop
  mode : t.mode = s.mode
  clt : ∀ w next, t.pc ≠ .sendClt w next
  ups : ∀ w next, t.pc = .sendUps w next → next = .loop

variable {s} {t : Relay cmdCap rspCap χ ω}

theorem Coasting.not_sendClt (h : s.Coasting) (w : WriteAllFlush χ) (next : AfterClt) :
    s.pc ≠ .sendClt w next := by
  intro heq
  simp only [Coasting, heq] at h

theorem ReadOn.coasts (h : s.ReadOn t) : s.Coasts t := by
  have hreads := h.reads
  refine ⟨h.pipeline, h.inLoop, h.mode, ?_, ?_⟩ <;> intro w next heq <;>
    simp only [Reads, heq] at hreads

theorem Coasts.keepsCommands (h : s.Coasts t) : s.KeepsCommands t := by
  refine ⟨by rw [h.pipeline], by rw [h.pipeline], ?_⟩
  unfold Relay.flight
  split
  case h_1 hpc => cases h.ups _ _ hpc
  case h_2 => rfl

theorem step_coasts [TextFunctions] [AtoiRadix10] [AsyncWrite χ] [AsyncWrite ω] (h : s.Coasting) :
    s.step.Keeps s.Coasts := by
  unfold step
  cases hpc : s.pc with
  | top => exact (nextRound_readOn s).mono ReadOn.coasts id
  | select => exact (chooseBranch_readOn s).mono ReadOn.coasts id
  | pollCmd more => exact (pollCmd_readOn s more hpc).mono ReadOn.coasts id
  | pollRsp more => exact (pollRsp_readOn s more hpc).mono ReadOn.coasts id
  | recvAuthLine =>
    refine (LineRecvBuf.readLine (s.cmdRecvBuf, s.cltR)).ensures_true.await ?_ ?_
    · intro p _
      exact ⟨rfl, rfl, rfl, by simp, by simp⟩
    · intro line p _
      exact ⟨rfl, rfl, rfl, nofun, fun w next heq => (RelayAt.sendUps.inj heq).2.symm⟩
  | clientLiteral u | serverLiteral u =>
    refine (u.poll {}).ensures_true.await ?_ ?_
    · intro u' _
      exact ⟨rfl, rfl, rfl, nofun, nofun⟩
    · intro _ u' _
      exact ⟨rfl, rfl, rfl, nofun, nofun⟩
  | tick | cmdLine | rspLine | sendUps | sendClt => simp only [Coasting, hpc] at h

variable (s)

end Relay

end Vey.Imap
