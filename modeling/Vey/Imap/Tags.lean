import Vey.Imap.Literals

/-! Tags: every result finds its command.

    An observer of both sides keeps a `Book`: which tags the client has used, which forwarded
    commands wait for their result, and whether the client is inside a command. The pipeline of the
    relay keeps the same book in other words (`Ledger`): the commands that wait are the completed
    ones and the one in hand.

        client:  command -----> book.waiting            <---- result :server
        relay:   command -----> cached / in hand        <---- remove(tag)

    The two stay in step as long as the client's lines come in order: see `InOrder`. -/

namespace Vey.Imap
open Schemes Vey.Types IoExt Serve List Command CommandPipeline LiteralArgument

/-! ### The pipeline as a table -/

namespace CommandPipeline

variable {tag tag' : Bytes}

theorem lookup_filter (l : List (Bytes × Command)) :
    (l.filter (·.1 ≠ tag)).lookup tag' = if tag' = tag then none else l.lookup tag' := by
  induction l with
  | nil => simp
  | cons e l ih =>
    obtain ⟨k, c⟩ := e
    by_cases hk : k = tag
    · subst hk
      rw [filter_cons_of_neg (by simp), ih]
      by_cases ht : tag' = k
      · rw [if_pos ht, if_pos ht]
      · rw [if_neg ht, if_neg ht, lookup_cons, beq_false_of_ne ht]
    · rw [filter_cons_of_pos (by simpa using hk), lookup_cons, ih, lookup_cons]
      by_cases ht : tag' = k
      · subst ht
        simp [hk]
      · rw [beq_false_of_ne ht]

theorem lookup_insertCompleted (p : CommandPipeline) (cmd : Command) :
    (p.insertCompleted cmd).cachedCommands.lookup tag' =
      if tag' = cmd.tag then some cmd else p.cachedCommands.lookup tag' := by
  rw [insertCompleted, lookup_cons, lookup_filter]
  by_cases ht : tag' = cmd.tag
  · simp [ht]
  · rw [if_neg ht, if_neg ht, beq_false_of_ne ht]

end CommandPipeline

/-! ### The book of an observer -/

/-- What an observer knows of a session: the tags of all commands, of those without a result, of
    the last IDLE, and of the command whose line ended in a literal. -/
structure Book where
  used : List Bytes := []
  waiting : List Bytes := []
  idle : Option Bytes := none
  inside : Option Bytes := none

namespace Book

variable (b : Book)

/-- A new command was sent to the server. -/
def command (cmd : Command) (opens : Bool) : Book where
  used := cmd.tag :: b.used
  waiting := cmd.tag :: b.waiting
  idle := if cmd.parsed = .idle then some cmd.tag else b.idle
  inside := if opens then some cmd.tag else none

/-- A further line of the command the client is inside of. -/
def goOn (tag : Bytes) (opens : Bool) : Book :=
  { b with inside := if opens then some tag else none }

/-- The result of a command. -/
def result (tag : Bytes) : Book :=
  { b with
    waiting := b.waiting.erase tag
    inside := if b.inside = some tag then none else b.inside }

/-- IDLE is without its result. -/
def Idles : Prop := ∃ tag, b.idle = some tag ∧ tag ∈ b.waiting

end Book

/-- The line ends in a literal, so that its command goes on. -/
def endsOpen [AtoiRadix10] (line : Bytes) : Bool :=
  match stripSuffix [cr, lf] line with
  | none => false
  | some left =>
    match LiteralArgument.check left with
    | .ok (some _) => true
    | _ => false

/-! ### The ledger of the relay -/

/-- The pipeline `p`, a command `flight` whose line is on its way, and the book are in step. -/
structure Ledger (p : CommandPipeline) (flight : Option Command) (b : Book) : Prop where
  nodup : b.waiting.Nodup
  known : ∀ tag ∈ b.waiting, tag ∈ b.used
  cached : ∀ tag, (p.cachedCommands.lookup tag).isSome = true → tag ∈ b.used
  held : ∀ tag ∈ b.waiting, (p.cachedCommands.lookup tag).isSome = true ∨
    ∃ cmd, (flight = some cmd ∨ p.ongoingCommand = some cmd) ∧ cmd.tag = tag
  alone : ∀ cmd, flight = some cmd ∨ p.ongoingCommand = some cmd →
    p.cachedCommands.lookup cmd.tag = none ∧ cmd.tag ∈ b.used ∧
      b.inside = if cmd.literalArg.isSome then some cmd.tag else none
  single : flight ≠ none → p.ongoingCommand = none
  idle : ∀ cmd, p.ongoingCommand = some cmd → cmd.literalArg = none →
    b.idle = some cmd.tag ∧ cmd.tag ∈ b.waiting
  outside : flight = none → p.ongoingCommand = none → b.inside = none

namespace Ledger

variable {p : CommandPipeline} {b : Book} {cmd : Command}

theorem empty : Ledger {} none {} where
  nodup := nodup_nil
  known := nofun
  cached := nofun
  held := nofun
  alone := nofun
  single := nofun
  idle := nofun
  outside _ _ := rfl

variable {flight : Option Command} {tag : Bytes}

/-- Only the commands of the pipeline count. -/
theorem congr {p' : CommandPipeline} (h : Ledger p flight b)
    (hc : p'.cachedCommands = p.cachedCommands) (ho : p'.ongoingCommand = p.ongoingCommand) :
    Ledger p' flight b := by
  obtain ⟨c, o, r⟩ := p
  obtain ⟨c', o', r'⟩ := p'
  obtain rfl : c' = c := hc
  obtain rfl : o' = o := ho
  exact ⟨h.nodup, h.known, h.cached, h.held, h.alone, h.single, h.idle, h.outside⟩

/-- No command in hand. -/
theorem vacant (nodup : b.waiting.Nodup) (known : ∀ tag ∈ b.waiting, tag ∈ b.used)
    (cached : ∀ tag, (p.cachedCommands.lookup tag).isSome = true → tag ∈ b.used)
    (held : ∀ tag ∈ b.waiting, (p.cachedCommands.lookup tag).isSome = true)
    (hnone : p.ongoingCommand = none) (outside : b.inside = none) : Ledger p none b where
  nodup := nodup
  known := known
  cached := cached
  held tag hm := .inl (held tag hm)
  alone := by simp [hnone]
  single hf := absurd rfl hf
  idle := by simp [hnone]
  outside _ _ := outside

/-- A tag that is not of the command in hand. -/
theorem held_cached (h : Ledger p flight b) (hm : tag ∈ b.waiting)
    (hne : ∀ c, flight = some c ∨ p.ongoingCommand = some c → c.tag ≠ tag) :
    (p.cachedCommands.lookup tag).isSome = true :=
  (h.held tag hm).resolve_right fun ⟨c, hc, ht⟩ => hne c hc ht

/-- A new tag in the book. -/
theorem enters (h : Ledger p flight b) (hfresh : tag ∉ b.used) :
    (tag :: b.waiting).Nodup ∧ ∀ t ∈ tag :: b.waiting, t ∈ tag :: b.used :=
  ⟨nodup_cons.mpr ⟨fun hm => hfresh (h.known _ hm), h.nodup⟩, cons_subset_cons _ h.known⟩

/-- A new command that is complete. -/
theorem command_completed (h : Ledger p none b) (hnone : p.ongoingCommand = none)
    (hfresh : cmd.tag ∉ b.used) : Ledger (p.insertCompleted cmd) none (b.command cmd false) := by
  refine vacant (h.enters hfresh).1 (h.enters hfresh).2 ?_ ?_ hnone rfl
  · intro tag hs
    rw [lookup_insertCompleted] at hs
    split at hs
    case isTrue heq => rw [heq]; exact mem_cons_self
    case isFalse => exact mem_cons_of_mem _ (h.cached tag hs)
  · intro tag hm
    rw [lookup_insertCompleted]
    split
    case isTrue => rfl
    case isFalse hne =>
      exact h.held_cached ((mem_cons.mp hm).resolve_left hne) (by simp [hnone])

/-- A new command in hand: one with a literal, or IDLE. -/
theorem command_opened (h : Ledger p none b) (hnone : p.ongoingCommand = none)
    (hfresh : cmd.tag ∉ b.used) (hidle : cmd.literalArg = none → cmd.parsed = .idle) :
    Ledger (p.setOngoingCommand cmd) none (b.command cmd cmd.literalArg.isSome) where
  nodup := (h.enters hfresh).1
  known := (h.enters hfresh).2
  cached tag hs := mem_cons_of_mem _ (h.cached tag hs)
  held := by
    intro tag hm
    rcases mem_cons.mp hm with rfl | hm
    · exact .inr ⟨cmd, .inr rfl, rfl⟩
    · exact .inl (h.held_cached hm (by simp [hnone]))
  alone := by
    rintro c (hc | hc)
    · cases hc
    · obtain rfl := Option.some.inj hc
      refine ⟨?_, mem_cons_self, rfl⟩
      by_contra hs
      exact hfresh (h.cached cmd.tag (Option.isSome_iff_ne_none.mpr hs))
  single hf := absurd rfl hf
  idle c hc hl := by
    obtain rfl := Option.some.inj hc
    exact ⟨if_pos (hidle hl), mem_cons_self⟩
  outside _ ho := nomatch ho

/-- A further line takes the command out of the slot. -/
theorem goOn (h : Ledger p none b) (hcmd : p.ongoingCommand = some cmd) (l : Option LiteralArgument) :
    Ledger p.withoutOngoingCommand (some { cmd with literalArg := l }) (b.goOn cmd.tag l.isSome) where
  nodup := h.nodup
  known := h.known
  cached := h.cached
  held := by
    intro tag hm
    rcases h.held tag hm with hs | ⟨c, hc | hc, ht⟩
    · exact .inl hs
    · cases hc
    · obtain rfl := Option.some.inj (hcmd.symm.trans hc)
      exact .inr ⟨_, .inl rfl, ht⟩
  alone := by
    obtain ⟨hl, hu, -⟩ := h.alone cmd (.inr hcmd)
    rintro c (hc | hc)
    · obtain rfl := Option.some.inj hc
      exact ⟨hl, hu, rfl⟩
    · cases hc
  single _ := rfl
  idle := nofun
  outside hf := nomatch hf

/-- The line was sent, and a literal belongs to the command again. -/
theorem reopen (h : Ledger p (some cmd) b) (hlit : cmd.literalArg.isSome = true) :
    Ledger (p.setOngoingCommand cmd) none b where
  nodup := h.nodup
  known := h.known
  cached := h.cached
  held := by
    intro tag hm
    rcases h.held tag hm with hs | ⟨c, hc | hc, ht⟩
    · exact .inl hs
    · exact .inr ⟨c, .inr hc, ht⟩
    · rw [h.single nofun] at hc; cases hc
  alone := by
    rintro c (hc | hc)
    · cases hc
    · exact h.alone c (.inl hc)
  single hf := absurd rfl hf
  idle c hc hl := by
    obtain rfl := Option.some.inj hc
    rw [hl] at hlit
    cases hlit
  outside _ ho := nomatch ho

/-- The last line was sent. -/
theorem complete (h : Ledger p (some cmd) b) (hlit : cmd.literalArg = none) :
    Ledger (p.insertCompleted cmd) none b := by
  obtain ⟨-, hused, hinside⟩ := h.alone cmd (.inl rfl)
  refine vacant h.nodup h.known ?_ ?_ (h.single nofun) (by rw [hinside, hlit]; rfl)
  · intro tag hs
    rw [lookup_insertCompleted] at hs
    split at hs
    case isTrue heq => exact heq ▸ hused
    case isFalse => exact h.cached tag hs
  · intro tag hm
    rw [lookup_insertCompleted]
    split
    case isTrue => rfl
    case isFalse hne =>
      refine h.held_cached hm ?_
      rintro c (hc | hc)
      · obtain rfl := Option.some.inj hc
        exact Ne.symm hne
      · rw [h.single nofun] at hc; cases hc

/-- A result finds its command, and the two books strike it out together. -/
theorem remove (h : Ledger p none b) (hm : tag ∈ b.waiting) :
    ∃ cmd p', p.remove tag = (some cmd, p') ∧ Ledger p' none (b.result tag) := by
  have hwaiting : ∀ t ∈ (b.result tag).waiting, t ∈ b.waiting ∧ t ≠ tag := by
    intro t ht
    exact ⟨mem_of_mem_erase ht, fun heq => (Nodup.not_mem_erase h.nodup) (heq ▸ ht)⟩
  unfold CommandPipeline.remove
  cases hl : p.cachedCommands.lookup tag with
  | some cmd =>
    have hne : ∀ c, p.ongoingCommand = some c → c.tag ≠ tag := by
      intro c hc heq
      have := (h.alone c (.inr hc)).1
      rw [heq, hl] at this
      cases this
    refine ⟨cmd, _, rfl, ?_⟩
    refine { nodup := h.nodup.erase tag, known := fun t ht => h.known t (hwaiting t ht).1,
             cached := ?_, held := ?_, alone := ?_, single := fun hf => absurd rfl hf, idle := ?_,
             outside := ?_ }
    · intro t hs
      simp only [lookup_filter] at hs
      split at hs
      · cases hs
      · exact h.cached t hs
    · intro t ht
      obtain ⟨hw, hnt⟩ := hwaiting t ht
      simp only [lookup_filter, if_neg hnt]
      exact h.held t hw
    · rintro c (hc | hc)
      · cases hc
      · obtain ⟨hl', hu, hi⟩ := h.alone c (.inr hc)
        have htag := hne c hc
        refine ⟨?_, hu, ?_⟩
        · simp only [lookup_filter, if_neg htag]
          exact hl'
        · simp only [Book.result, hi]
          split
          · rw [if_neg (by simpa using htag)]
          · rfl
    · intro c hc hl
      obtain ⟨hidle, hw⟩ := h.idle c hc hl
      exact ⟨hidle, (mem_erase_of_ne (hne c hc)).mpr hw⟩
    · intro _ ho
      simp only [Book.result, h.outside rfl ho]
      rfl
  | none =>
    rcases h.held tag hm with hs | ⟨cmd, hc | hc, rfl⟩
    · rw [hl] at hs; cases hs
    · cases hc
    · simp only [hc, if_true]
      refine ⟨cmd, _, rfl, vacant (h.nodup.erase cmd.tag) (fun t ht => h.known t (hwaiting t ht).1)
        h.cached ?_ rfl ?_⟩
      · intro t ht
        obtain ⟨hw, hnt⟩ := hwaiting t ht
        refine h.held_cached hw ?_
        rintro c (hc' | hc')
        · cases hc'
        · obtain rfl := Option.some.inj (hc.symm.trans hc')
          exact Ne.symm hnt
      · have hi := (h.alone cmd (.inr hc)).2.2
        simp only [Book.result]
        split
        case isTrue => rfl
        case isFalse hne =>
          split at hi
          · exact absurd hi hne
          · exact hi

end Ledger

/-! ### Literals at the end of a line -/

section

variable [TextFunctions] [AtoiRadix10] {line : Bytes} {cmd : Command}

/-- A literal among the parameters ends the line. -/
theorem endsOpen_of_parseLine (hp : parseLine line = .ok cmd)
    (hsome : cmd.literalArg.isSome = true) : endsOpen line = true := by
  unfold parseLine at hp
  unfold endsOpen
  cases hleft : stripSuffix [cr, lf] line with
  | none =>
    rw [hleft] at hp
    cases hp
  | some left =>
    rw [hleft] at hp
    dsimp only at hp ⊢
    split at hp
    case h_1 => cases hp
    case h_2 d hd =>
      obtain ⟨tag, -, hp⟩ := bind_ok hp
      split at hp
      case isTrue => cases hp
      case isFalse =>
        unfold parseTagged at hp
        split at hp
        case h_2 =>
          obtain ⟨word, -, hp⟩ := bind_ok hp
          obtain rfl := Except.ok.inj hp
          cases hsome
        case h_1 p hpos =>
          obtain ⟨word, -, hp⟩ := bind_ok hp
          obtain ⟨literal, hlit, hp⟩ := bind_ok hp
          obtain rfl := Except.ok.inj hp
          obtain ⟨literal, rfl⟩ := Option.isSome_iff_exists.mp hsome
          -- the literal found behind the word is the one found from the front
          obtain ⟨head, ds, hparams, hne, hds⟩ := check_some hlit
          rw [hparams, check_literalText hds head] at hlit
          rw [drop_drop] at hparams
          have hleft := take_append_drop (d + 1 + (p + 1)) left
          rw [hparams, ← append_assoc] at hleft
          rw [← hleft, check_literalText hds _, hlit]

omit [TextFunctions] in
/-- A further line of a command. -/
theorem parseContinueLine_endsOpen {cmd' : Command} (hp : cmd.parseContinueLine line = .ok cmd') :
    ∃ l, cmd' = { cmd with literalArg := l } ∧ l.isSome = endsOpen line := by
  unfold parseContinueLine at hp
  unfold endsOpen
  cases hleft : stripSuffix [cr, lf] line with
  | none =>
    rw [hleft] at hp
    cases hp
  | some left =>
    rw [hleft] at hp
    dsimp only at hp ⊢
    split at hp
    case isTrue hnil =>
      refine ⟨none, (Except.ok.inj hp).symm, ?_⟩
      rw [hnil]
      rfl
    case isFalse =>
      obtain ⟨l, hlit, hp⟩ := bind_ok hp
      refine ⟨l, (Except.ok.inj hp).symm, ?_⟩
      rw [hlit]
      cases l <;> rfl

end

namespace Relay

variable {cmdCap rspCap : Nat} {χ ω : Type}

/-! ### Sessions -/

/-- A line is on its way to the server. -/
def sending (s : Relay cmdCap rspCap χ ω) : Bool :=
  match s.pc with
  | .sendUps _ _ => true
  | _ => false

instance (s : Relay cmdCap rspCap χ ω) : Decidable s.ReadsRsp := inferInstanceAs (Decidable (_ → _))

section

variable [TextFunctions] [AtoiRadix10]

/-- What the observer notes when `s` goes on to `t`. -/
def note (b : Book) (s t : Relay cmdCap rspCap χ ω) : Book :=
  match s.pc with
  | .cmdLine line =>
    if s.inLoop = .idle ∨ t.sending = false then b
    else
      match b.inside with
      | some tag => b.goOn tag (endsOpen line)
      | none =>
        match Command.parseLine line with
        | .ok cmd => b.command cmd (endsOpen line)
        | .error _ => b
  | .rspLine line =>
    if s.ReadsRsp then
      match Response.parseLine line with
      | .ok (.commandResult r) => b.result r.tag
      | _ => b
    else b
  | _ => b

/-- A command line of the client is handled. -/
def Handles (s : Relay cmdCap rspCap χ ω) (line : Bytes) : Prop :=
  s.pc = .cmdLine line ∧ s.inLoop ≠ .idle

variable (x : Relay cmdCap rspCap χ ω × Book)

/-- Both sides keep to the rules: the client never uses a tag twice, and the server gives results to
    forwarded commands only, one to each. -/
structure Compliant : Prop where
  fresh : ∀ line cmd, x.1.Handles line → x.2.inside = none → Command.parseLine line = .ok cmd →
    cmd.tag ∉ x.2.used
  answers : ∀ line r, x.1.pc = .rspLine line → x.1.Tagged line r → r.tag ∈ x.2.waiting

/-- What the client's lines have to meet: none is taken while IDLE is without its result, and a
    command that ends in a literal is one whose literal is relayed. -/
structure InOrder : Prop where
  idleOver : ∀ line, x.1.Handles line → ¬ x.2.Idles
  literals : ∀ line cmd, x.1.Handles line → x.2.inside = none →
    Command.parseLine line = .ok cmd → endsOpen line = true →
    cmd.literalArg.isSome = true ∧ x.1.relaysLiteral cmd.parsed

variable {s t : Relay cmdCap rspCap χ ω} {b : Book}

/-- The relay and the observer are in step. -/
def InStep : Prop :=
  Ledger x.1.cmdPipeline x.1.flight x.2

omit [TextFunctions] [AtoiRadix10] in
theorem KeepsCommands.inStep (ht : s.KeepsCommands t) (h : Ledger s.cmdPipeline none b) :
    InStep (t, b) := by
  show Ledger t.cmdPipeline t.flight b
  rw [ht.flight]
  exact h.congr ht.cached ht.ongoing

/-- A command line keeps the two in step. -/
theorem InStep.cmdLine {line : Bytes} (h : InStep (s, b)) (hline : s.Handles line)
    (hc : Compliant (s, b)) (ho : InOrder (s, b)) :
    (s.handleCmdLine line).Keeps (fun t => InStep (t, note b s t)) := by
  have hflight : s.flight = none := by simp only [flight, hline.1]
  have h' : Ledger s.cmdPipeline none b := hflight ▸ h
  have hnote : ∀ p sent next, note b s { s with cmdPipeline := p, pc := .sendUps ⟨sent, s.upsW⟩ next } =
      match b.inside with
      | some tag => b.goOn tag (endsOpen line)
      | none =>
        match parseLine line with
        | .ok cmd => b.command cmd (endsOpen line)
        | .error _ => b := by
    intro p sent next
    simp only [note, hline.1, sending, hline.2, Bool.true_eq_false, or_self, if_false]
  have hanswer := handleCmdLine_answer s line
  generalize s.handleCmdLine line = c at hanswer
  cases hanswer with
  | fail => exact trivial
  | reply _ _ _ _ sent =>
    have hsame : note b s { s with pc := .sendClt ⟨sent, s.cltW⟩ .loop } = b := by
      simp only [note, hline.1, sending, or_true, if_true]
    show InStep (_, note b s _)
    rw [hsame]
    exact KeepsCommands.inStep ⟨rfl, rfl, rfl⟩ h'
  | @send sent p next hrec =>
    show InStep (_, note b s _)
    cases hrec with
    | @completed cmd hnone hparse hlit _ _ hnext =>
      have hout := h'.outside rfl hnone
      have hopen : endsOpen line = false := by
        by_contra hopen
        obtain ⟨hsome, hrel⟩ := ho.literals line cmd hline hout hparse (by simpa using hopen)
        rw [hlit hrel] at hsome
        cases hsome
      have hnext' : ∀ c, next ≠ .continued c := by
        rintro c rfl
        revert hnext
        simp
      rw [hnote, hout, hparse, hopen]
      have hl := h'.command_completed hnone (hc.fresh line cmd hline hout hparse)
      cases next with
      | continued c => exact absurd rfl (hnext' c)
      | _ => exact hl
    | @opened cmd literal hnone hparse hrel hlit =>
      have hout := h'.outside rfl hnone
      have hsome : cmd.literalArg.isSome = true := by rw [hlit]; rfl
      have hl := h'.command_opened hnone (hc.fresh line cmd hline hout hparse)
        (fun hn => by rw [hn] at hsome; cases hsome)
      rw [hnote, hout, hparse, endsOpen_of_parseLine hparse hsome]
      rw [hsome] at hl
      cases literal.waitContinuation <;> exact hl
    | @idle cmd hnone hparse hrel hidle =>
      have hout := h'.outside rfl hnone
      have hopen : endsOpen line = cmd.literalArg.isSome := by
        cases hs : cmd.literalArg.isSome with
        | true => exact endsOpen_of_parseLine hparse hs
        | false =>
          by_contra hopen
          exact hrel (ho.literals line cmd hline hout hparse (by simpa using hopen)).2
      rw [hnote, hout, hparse, hopen]
      exact h'.command_opened hnone (hc.fresh line cmd hline hout hparse) fun _ => hidle
    | @continued cmd cmd' hcmd hparse =>
      obtain ⟨l, rfl, hopen⟩ := parseContinueLine_endsOpen hparse
      have hsome : cmd.literalArg.isSome = true := by
        by_contra hn
        exact ho.idleOver line hline
          ⟨_, h'.idle cmd hcmd (Option.not_isSome_iff_eq_none.mp hn)⟩
      have hin := (h'.alone cmd (.inr hcmd)).2.2
      rw [if_pos hsome] at hin
      rw [hnote, hin, ← hopen]
      exact h'.goOn hcmd l

/-- A line of the server keeps the two in step. -/
theorem InStep.rspLine {line : Bytes} (h : InStep (s, b)) (hpc : s.pc = .rspLine line)
    (hc : Compliant (s, b)) : (s.handleRspIn line).Keeps (fun t => InStep (t, note b s t)) := by
  have hflight : s.flight = none := by simp only [flight, hpc]
  have h' : Ledger s.cmdPipeline none b := hflight ▸ h
  -- the observer notes what the pipeline does
  have hledger : ∀ {p}, s.Settles line p → ∀ t, Ledger p none (note b s t) := by
    intro p hp t
    cases hp with
    | @result r cmd p htag hremove =>
      obtain ⟨cmd', p', hremove', hl⟩ := h'.remove (hc.answers line r hpc htag)
      obtain ⟨-, rfl⟩ := Prod.mk.inj (hremove.symm.trans hremove')
      simp only [note, hpc, if_pos htag.1, htag.2]
      exact hl
    | other hnot hcached hongoing =>
      have hsame : note b s t = b := by
        simp only [note, hpc]
        split
        case isTrue hreads =>
          split
          case h_1 r hparse => exact absurd ⟨hreads, hparse⟩ (hnot r)
          case h_2 => rfl
        case isFalse => rfl
      rw [hsame]
      exact h'.congr hcached hongoing
  have hanswer := handleRspIn_answer s line
  generalize s.handleRspIn line = c at hanswer
  cases hanswer with
  | fail => exact trivial
  | send hp sent hnext => exact hledger hp _
  | @skip p hp next hnext =>
    refine (afterClt_keeps { s with cmdPipeline := p } next).mono ?_ id
    exact fun {t} ht => KeepsCommands.inStep ht (hledger hp t)

variable [AsyncWrite χ] [AsyncWrite ω]

/-- Every step keeps the two in step. -/
theorem InStep.step (h : InStep (s, b)) (hc : Compliant (s, b)) (ho : InOrder (s, b)) :
    s.step.Keeps (fun t => InStep (t, note b s t)) := by
  have hsame : (∀ line, s.pc ≠ .cmdLine line) → (∀ line, s.pc ≠ .rspLine line) →
      ∀ t, note b s t = b := by
    intro hcmd hrsp t
    unfold note
    split
    case h_1 line hpc => exact absurd hpc (hcmd line)
    case h_2 line hpc => exact absurd hpc (hrsp line)
    case h_3 => rfl
  have hkeep : (∀ t, note b s t = b) → ∀ {u : Relay cmdCap rspCap χ ω} {c : Step cmdCap rspCap χ ω},
      Ledger u.cmdPipeline none b → c.Keeps u.KeepsCommands →
      c.Keeps (fun t => InStep (t, note b s t)) := by
    intro hb u c hu hk
    refine hk.mono ?_ id
    intro t ht
    rw [hb]
    exact ht.inStep hu
  have hidle : s.flight = none → Ledger s.cmdPipeline none b := fun hf => hf ▸ h
  rcases s.step_kinds with hcoast | hpc | ⟨line, hpc⟩ | ⟨line, hpc⟩ | ⟨w, next, hpc⟩ | ⟨w, next, hpc⟩
  · have hnot : (∀ line, s.pc ≠ .cmdLine line) ∧ (∀ line, s.pc ≠ .rspLine line) ∧ s.flight = none := by
      unfold Coasting at hcoast
      split at hcoast <;> simp_all [flight]
    exact hkeep (hsame hnot.1 hnot.2.1) (hidle hnot.2.2)
      ((step_coasts hcoast).mono Coasts.keepsCommands id)
  all_goals simp only [Relay.step, hpc]
  · exact hkeep (u := s) (by simp [note, hpc]) (hidle (by simp only [flight, hpc])) ⟨rfl, rfl, rfl⟩
  · split
    case isTrue hloop =>
      unfold handleIdleLine
      split
      · exact hkeep (u := s) (by simp [note, hpc, hloop]) (hidle (by simp only [flight, hpc]))
          ⟨rfl, rfl, rfl⟩
      · exact trivial
    case isFalse hloop => exact h.cmdLine ⟨hpc, hloop⟩ hc ho
  · exact h.rspLine hpc hc
  · have hb : ∀ t, note b s t = b := by simp [note, hpc]
    refine w.poll.ensures_true.await ?_ ?_
    · intro w' _
      have hflight : s.flight = { s with
          upsW := w'.writer
          pc := RelayAt.sendUps w' next }.flight := by
        simp only [flight, hpc]
        cases next <;> rfl
      show Ledger s.cmdPipeline _ (note b s _)
      rw [hb, ← hflight]
      exact h
    · intro _ w' _
      by_cases hcont : ∃ cmd, next = .continued cmd
      · obtain ⟨cmd, rfl⟩ := hcont
        have hl : Ledger s.cmdPipeline (some cmd) b := by
          have hl : Ledger s.cmdPipeline s.flight b := h
          simpa only [flight, hpc] using hl
        unfold afterUps
        dsimp only
        split
        case h_1 literal hlit =>
          have hopen := hl.reopen (by rw [hlit]; rfl)
          split
          · exact hkeep hb (u := { s with cmdPipeline := s.cmdPipeline.setOngoingCommand cmd }) hopen
              ⟨rfl, rfl, rfl⟩
          · exact hkeep hb hopen (relayClientLiteral_keeps _ _)
        case h_2 hlit =>
          exact hkeep hb (u := { s with cmdPipeline := s.cmdPipeline.insertCompleted cmd })
            (hl.complete hlit) ⟨rfl, rfl, rfl⟩
      · have hnext : ∀ cmd, next ≠ .continued cmd := fun cmd heq => hcont ⟨cmd, heq⟩
        have hflight : s.flight = none := by
          unfold flight
          rw [hpc]
          split
          case h_1 heq =>
            obtain ⟨-, rfl⟩ := RelayAt.sendUps.inj heq
            exact absurd rfl (hnext _)
          case h_2 => rfl
        exact hkeep hb (u := { s with upsW := w'.writer, pc := .sendUps w next }) (hidle hflight)
          (afterUps_keeps _ hnext)
  · refine hkeep (u := s) (by simp [note, hpc]) (hidle (by simp only [flight, hpc]))
      (w.poll.ensures_true.await ?_ ?_)
    · intro w' _
      exact ⟨rfl, rfl, rfl⟩
    · intro _ w' _
      exact (afterClt_keeps _ next).mono (fun ht => ⟨ht.cached, ht.ongoing, ht.flight⟩) id

end

/-! ### Two sessions -/

section

variable (x : Relay cmdCap rspCap χ ω × Book)

/-- A step in order, as a check: no literal is announced, and IDLE does not wait. -/
def calm : Bool :=
  match x.1.pc with
  | .cmdLine line => !endsOpen line && !x.2.idle.any x.2.waiting.contains
  | _ => true

end

end Relay

end Vey.Imap
