import Vey.Imap.Forwarding

/-! Literals of the client.

    A line that ends in `{n+}` is followed by `n` raw bytes, and so is one that ends in `{n}` once
    the server has asked for them. The relay owes it to the server to send them right behind the
    line, and to itself never to read them as a command.

        line {n+}  -->  sendUps  -->  n bytes of the client  -->  next line
        line {n}   -->  sendUps  -->  waits ... "+" --> n bytes of the client  -->  next line

    Not every line keeps its literal: see `KeepsLiteral` and `StepOk` for what a step has to meet. -/

namespace Vey.Imap
open Schemes Vey.Types IoExt Serve List

/-! ### The literal at the end of a line -/

/-- `{ds}` or `{ds+}` -/
def literalText (ds : Bytes) (sync : Bool) : Bytes :=
  123 :: (ds ++ if sync then [125] else [43, 125])

/-- The line ends in a literal of `n` bytes, for which the client waits or not. -/
def EndsWithLiteral (line : Bytes) (n : Nat) (sync : Bool) : Prop :=
  ∃ head ds, line = head ++ literalText ds sync ++ [cr, lf] ∧ ds ≠ [] ∧
    (∀ b ∈ ds, (decVal b).isSome = true) ∧ numeral 10 decVal ds = n

/-- A byte that is no digit, brace or plus is not in the text of a literal. -/
theorem not_mem_literalText {c : UInt8} {ds : Bytes} (hds : ∀ b ∈ ds, (decVal b).isSome = true)
    (hc : decVal c = none) (hne : c ∉ [43, 125]) (sync : Bool) :
    c ∉ ds ++ if sync then [125] else [43, 125] := by
  intro h
  rcases mem_append.mp h with h | h
  · have := hds c h
    rw [hc] at this
    cases this
  · cases sync with
    | true => exact hne (by simp_all)
    | false => exact hne h

/-! Where the text of a literal is found. -/

theorem literalText_eq (ds : Bytes) (sync : Bool) :
    literalText ds sync = 123 :: ((ds ++ if sync then [] else [43]) ++ [125]) := by
  cases sync <;> simp [literalText]

theorem getLast?_literalText (head ds : Bytes) (sync : Bool) :
    (head ++ literalText ds sync).getLast? = some 125 := by
  rw [literalText_eq, ← cons_append, ← append_assoc]
  exact getLast?_concat ..

theorem memrchr_literalText (head : Bytes) {ds : Bytes} {sync : Bool}
    (hds : ∀ b ∈ ds, (decVal b).isSome = true) :
    memrchr 123 (head ++ literalText ds sync) = some head.length :=
  memrchr_append_cons head (not_mem_literalText hds (by decide) (by decide) sync)

theorem win_literalText (head ds : Bytes) (sync : Bool) :
    win (head ++ literalText ds sync) (head.length + 1) ((head ++ literalText ds sync).length - 1) =
      ds ++ if sync then [] else [43] := by
  rw [win, literalText_eq, drop_length_add_append, drop_one, tail_cons]
  exact take_left' (by simp only [length_append, length_cons, length_nil]; omega)

/-- A text that ends in a brace, cut at the brace before it. -/
theorem split_braces {left : Bytes} {p : Nat} (hlast : left.getLast? = some 125)
    (hp : memrchr 123 left = some p) :
    left = left.take p ++ 123 :: (win left (p + 1) (left.length - 1) ++ [125]) := by
  have hsplit := memrchr_some hp
  have hlast' : (left.drop (p + 1)).getLast? = some 125 := by
    rw [hsplit, getLast?_append_of_ne_nil _ (cons_ne_nil _ _)] at hlast
    cases hd : left.drop (p + 1) with
    | nil => rw [hd] at hlast; cases hlast
    | cons x xs => rw [hd] at hlast; exact hlast
  have hback : left.drop (p + 1) = win left (p + 1) (left.length - 1) ++ [125] := by
    obtain ⟨hne', hget⟩ := getLast?_eq_some_iff.mp hlast'
    rw [hget, win, hget]
    have hlen := congrArg length hget
    rw [length_drop, length_append] at hlen
    rw [take_left' (by simp at hlen; omega)]
  rwa [hback] at hsplit

section

variable [AtoiRadix10] {ds buf : Bytes} {size offset : Nat}

theorem size_literal (sync : Bool) (hds : ∀ b ∈ ds, (decVal b).isSome = true)
    (h : fromRadix10Checked 64 (ds ++ if sync then [] else [43]) = (some size, offset)) :
    size = numeral 10 decVal ds ∧ offset = ds.length := by
  have hdigits : digits decVal (ds ++ if sync then [] else [43]) = ds := by
    cases sync with
    | true => simpa [digits] using hds
    | false => exact digits_append [] hds rfl
  have hused := AtoiRadix10.used 64 (ds ++ if sync then [] else [43])
  have hvalue := AtoiRadix10.value 64 (ds ++ if sync then [] else [43])
  rw [h, hdigits] at hused hvalue
  refine ⟨?_, hused⟩
  split at hvalue
  · exact Option.some.inj hvalue
  · cases hvalue

/-- A size is read off digits, and a plus behind them. -/
theorem digits_size (h : fromRadix10Checked 64 buf = (some size, offset)) :
    offset = (digits decVal buf).length ∧ (offset = buf.length → buf = digits decVal buf) ∧
      (offset + 1 = buf.length ∧ buf.getD offset 0 = 43 → buf = digits decVal buf ++ [43]) := by
  have hused := AtoiRadix10.used 64 buf
  have hfront : digits decVal buf <+: buf := takeWhile_prefix _
  rw [h] at hused
  obtain rfl : offset = _ := hused
  refine ⟨rfl, fun hall => (hfront.eq_of_length hall).symm, fun ⟨hlen, hat⟩ => ?_⟩
  have htake := take_succ_getD (b := buf) (n := (digits decVal buf).length) (by omega) 0
  rwa [hat, hlen, take_length, ← prefix_iff_eq_take.mp hfront] at htake

end

namespace LiteralArgument

variable [AtoiRadix10] {ds : Bytes} {sync : Bool}

section

variable (hds : ∀ b ∈ ds, (decVal b).isSome = true)

include hds

/-- The text between the braces is read as it was written, or it is too large. -/
theorem parseSize_literal (sync : Bool) (hne : ds ≠ []) :
    parseSize (ds ++ if sync then [] else [43]) = .ok ⟨numeral 10 decVal ds, sync⟩ ∨
      parseSize (ds ++ if sync then [] else [43]) = .error .invalidLiteralSize := by
  have hlen : 0 < ds.length := length_pos_iff.mpr hne
  unfold parseSize
  rw [if_neg (by simp [hne])]
  split
  case h_1 => exact .inr rfl
  case h_2 size offset heq =>
    obtain ⟨rfl, rfl⟩ := size_literal sync hds heq
    rw [if_neg (by omega)]
    left
    cases sync <;> simp

/-- What stands in front of the literal does not matter. -/
theorem check_literalText (head : Bytes) :
    check (head ++ literalText ds sync) = some <$> parseSize (ds ++ if sync then [] else [43]) := by
  unfold check
  rw [if_pos (getLast?_literalText head ds sync), memrchr_literalText head hds]
  simp only [win_literalText]

theorem check_literal (head : Bytes) (sync : Bool) (hne : ds ≠ []) :
    check (head ++ literalText ds sync) = .ok (some ⟨numeral 10 decVal ds, sync⟩) ∨
      check (head ++ literalText ds sync) = .error .invalidLiteralSize := by
  rw [check_literalText hds head]
  rcases parseSize_literal hds sync hne with h | h
  · rw [h]; exact .inl rfl
  · rw [h]; exact .inr rfl

end

/-- Only digits, and a plus behind them, are read as a size. -/
theorem parseSize_ok {buf : Bytes} {literal : LiteralArgument} (h : parseSize buf = .ok literal) :
    ∃ ds, buf = (ds ++ if literal.waitContinuation then [] else [43]) ∧ ds ≠ [] ∧
      ∀ b ∈ ds, (decVal b).isSome = true := by
  unfold parseSize at h
  split at h
  case isTrue => cases h
  case isFalse =>
    split at h
    case h_1 => cases h
    case h_2 size offset heq =>
      obtain ⟨rfl, hall, hplus⟩ := digits_size heq
      split at h
      case isTrue => cases h
      case isFalse hne =>
        have hds : digits decVal buf ≠ [] := fun h => hne (by rw [h]; rfl)
        split at h
        case isTrue hend =>
          obtain rfl := Except.ok.inj h
          exact ⟨digits decVal buf, by simpa using hall hend, hds, fun b => mem_digits⟩
        case isFalse =>
          split at h
          case isTrue hend =>
            obtain rfl := Except.ok.inj h
            exact ⟨digits decVal buf, hplus hend, hds, fun b => mem_digits⟩
          case isFalse => cases h

/-- Only a literal at the end is read as one. -/
theorem check_some {left : Bytes} {literal : LiteralArgument} (h : check left = .ok (some literal)) :
    ∃ head ds, left = head ++ literalText ds literal.waitContinuation ∧ ds ≠ [] ∧
      ∀ b ∈ ds, (decVal b).isSome = true := by
  unfold check at h
  split at h
  case isFalse => cases h
  case isTrue hlast =>
    split at h
    case h_2 => cases h
    case h_1 p hp =>
      cases hsize : parseSize (win left (p + 1) (left.length - 1)) with
      | error e => rw [hsize] at h; cases h
      | ok lit =>
        rw [hsize] at h
        obtain rfl : lit = literal := Option.some.inj (Except.ok.inj h)
        obtain ⟨ds, hbuf, hne, hds⟩ := parseSize_ok hsize
        refine ⟨left.take p, ds, ?_, hne, hds⟩
        rw [literalText_eq, ← hbuf]
        exact split_braces hlast hp

end LiteralArgument

/-- Cutting at a blank leaves the literal whole. -/
theorem drop_blank_literal {head ds : Bytes} {sync : Bool} {d : Nat}
    (hds : ∀ b ∈ ds, (decVal b).isSome = true)
    (h : memchr 32 (head ++ literalText ds sync) = some d) :
    ∃ head', (head ++ literalText ds sync).drop (d + 1) = head' ++ literalText ds sync := by
  have hblank : (32 : UInt8) ∉ literalText ds sync := by
    have := not_mem_literalText hds (show decVal 32 = none by decide) (by decide) sync
    simpa [literalText] using this
  rcases append_eq_append_iff.mp (memchr_some h).2 with ⟨a, -, ha⟩ | ⟨c, -, hc⟩
  · exact absurd (ha ▸ by simp) hblank
  · cases c with
    | nil =>
      have hmem : (32 : UInt8) ∈ [] ++ literalText ds sync := hc ▸ mem_cons_self
      exact absurd hmem hblank
    | cons x c =>
      obtain ⟨-, hrest⟩ := cons.inj hc
      exact ⟨c, hrest⟩

namespace Command

variable [TextFunctions] [AtoiRadix10] {line : Bytes} {n : Nat} {sync : Bool}

/-- A parsed command either has the literal that ends its line or missed it. -/
theorem parseLine_literal {cmd : Command} (h : EndsWithLiteral line n sync)
    (hp : parseLine line = .ok cmd) (hsome : cmd.literalArg.isSome = true) :
    cmd.literalArg = some ⟨n, sync⟩ := by
  obtain ⟨head, ds, rfl, hne, hds, rfl⟩ := h
  unfold parseLine at hp
  rw [stripSuffix_append] at hp
  dsimp only at hp
  split at hp
  case h_1 => cases hp
  case h_2 d hd =>
    obtain ⟨head', hhead'⟩ := drop_blank_literal hds hd
    rw [hhead'] at hp
    obtain ⟨tag, -, hp⟩ := bind_ok hp
    rw [if_neg (by simp [literalText])] at hp
    unfold parseTagged at hp
    split at hp
    case h_1 p hpos =>
      obtain ⟨head'', hhead''⟩ := drop_blank_literal hds hpos
      rw [hhead''] at hp
      obtain ⟨word, -, hp⟩ := bind_ok hp
      obtain ⟨literal, hlit, hp⟩ := bind_ok hp
      rcases LiteralArgument.check_literal hds head'' sync hne with hc | hc
      · cases hc.symm.trans hlit
        obtain rfl := Except.ok.inj hp
        rfl
      · cases hc.symm.trans hlit
    case h_2 =>
      -- without parameters the literal is taken for a part of the command
      obtain ⟨word, -, hp⟩ := bind_ok hp
      obtain rfl := Except.ok.inj hp
      cases hsome

omit [TextFunctions] in
theorem parseContinueLine_literal {cmd cmd' : Command} (h : EndsWithLiteral line n sync)
    (hp : cmd.parseContinueLine line = .ok cmd') :
    cmd' = { cmd with literalArg := some ⟨n, sync⟩ } := by
  obtain ⟨head, ds, rfl, hne, hds, rfl⟩ := h
  unfold parseContinueLine at hp
  rw [stripSuffix_append] at hp
  dsimp only at hp
  rw [if_neg (by simp [literalText])] at hp
  rcases LiteralArgument.check_literal hds head sync hne with hc | hc
  · rw [hc] at hp
    exact (Except.ok.inj hp).symm
  · rw [hc] at hp; cases hp

/-- The command waits for the request for its literal of `n` bytes. -/
def AsksFor (cmd : Command) (n : Nat) : Prop :=
  cmd.literalArg = some ⟨n, true⟩ ∧ cmd.parsed ≠ .idle

end Command

namespace Relay

variable {cmdCap rspCap : Nat} {χ ω : Type}

/-! ### What is promised -/

section

variable [TextFunctions] [AtoiRadix10] (s : Relay cmdCap rspCap χ ω)

/-- The relay calls `parse_line` on the next line of the client. -/
def Parses (line : Bytes) : Prop :=
  s.pc = .cmdLine line ∧ s.inLoop ≠ .idle ∧ s.cmdPipeline.ongoingCommand = none

/-- A command line of the client is left behind: it is handled, or it is dropped unseen. -/
def Passes (line rest : Bytes) (s : Relay cmdCap rspCap χ ω) : Prop :=
  s.unread = line ++ rest ∧
    ((s.pc = .cmdLine line ∧ s.inLoop ≠ .idle) ∨ (s.skipped = line ∧ line ≠ []))

/-- The `n` bytes in front of `rest` are kept together behind `line`, which came when the server had
    got `log`. -/
structure LiteralKept (log line rest : Bytes) (n : Nat) (s : Relay cmdCap rspCap χ (Tapped ω)) :
    Prop where
  notParsed : ∀ l, s.Parses l → s.unread <:+ rest.drop n
  inOrder : log ++ line <+: s.upsW.log →
    s.upsW.log <+: log ++ line ++ rest.take n ∨ log ++ line ++ rest.take n <+: s.upsW.log
  whole : ∀ l, s.pc = .cmdLine l → log ++ line <+: s.upsW.log →
    log ++ line ++ rest.take n <+: s.upsW.log

/-- No line of the client is handled, and no literal asked for. -/
def Silent : Prop :=
  (∀ line, s.pc ≠ .cmdLine line) ∧ ∀ line, s.pc = .rspLine line → ¬ s.Accepts line

variable [AsyncWrite χ] [AsyncWrite ω]

/-- A literal is safe when it is kept from its line on, or from the request for it on, in all runs
    over states with `P`. -/
def LiteralSafe (P : Relay cmdCap rspCap χ (Tapped ω) → Prop) (s : Relay cmdCap rspCap χ (Tapped ω)) :
    Prop :=
  ∀ line rest n sync, s.Passes line rest → EndsWithLiteral line n sync →
    (sync = false → ∀ t u, (future cmdCap rspCap χ (Tapped ω)).Moves s t →
      (future cmdCap rspCap χ (Tapped ω)).Runs P t u → u.LiteralKept s.upsW.log line rest n) ∧
    (sync = true → ∀ t v l w u, (future cmdCap rspCap χ (Tapped ω)).Moves s t →
      (future cmdCap rspCap χ (Tapped ω)).Runs (fun x => P x ∧ x.Silent) t v →
      v.pc = .rspLine l → v.Accepts l → P v → (future cmdCap rspCap χ (Tapped ω)).Moves v w →
      (future cmdCap rspCap χ (Tapped ω)).Runs P w u → u.LiteralKept s.upsW.log line rest n)

/-! ### What a step has to meet -/

/-- The line belongs to a command whose literal is relayed; IDLE, the only other command that can be
    under way, takes no request for one. -/
def KeepsLiteral (line : Bytes) (sync : Bool) : Prop :=
  match s.cmdPipeline.ongoingCommand with
  | some cmd => cmd.parsed = .idle → sync = false
  | none => ∀ cmd, Command.parseLine line = .ok cmd →
      cmd.literalArg.isSome = true ∧ s.relaysLiteral cmd.parsed

/-- A line with a literal is of a command that keeps it; no line with a literal is dropped, and none
    at all while the request for a literal is awaited. -/
structure StepOk : Prop where
  keeps : ∀ line n sync, s.pc = .cmdLine line → s.inLoop ≠ .idle → EndsWithLiteral line n sync →
    s.KeepsLiteral line sync
  skips : s.skipped ≠ [] → (∀ n sync, ¬ EndsWithLiteral s.skipped n sync) ∧
    ∀ cmd n, s.cmdPipeline.ongoingCommand = some cmd → ¬ cmd.AsksFor n

end

/-! ### A line with a literal -/

section

variable [TextFunctions] [AtoiRadix10] {s t : Relay cmdCap rspCap χ (Tapped ω)} {line : Bytes} {n : Nat}
  {sync : Bool}

/-- What is still to come when a line with a literal is sent: the literal itself, or the request
    for it. -/
def Announces (p : CommandPipeline) (next : AfterUps) (n : Nat) (sync : Bool) : Prop :=
  next.owes = (if sync then 0 else n) ∧ (sync = true →
    (next = .loop ∧ ∃ cmd, p.ongoingCommand = some cmd ∧ cmd.AsksFor n) ∨
    (p.ongoingCommand = none ∧ ∃ cmd, next = .continued cmd ∧ cmd.AsksFor n))

/-- The line is sent on and its literal is not forgotten. -/
def SendsWithLiteral (s : Relay cmdCap rspCap χ ω) (line : Bytes) (n : Nat) (sync : Bool)
    (c : Step cmdCap rspCap χ ω) : Prop :=
  (∃ p e, c = { s with cmdPipeline := p }.fail e) ∨
    ∃ p next, c = { s with cmdPipeline := p }.sendUps line next ∧ Announces p next n sync

/-- A line with a literal that is kept. -/
theorem handleCmdLine_literal (h : EndsWithLiteral line n sync) (hk : s.KeepsLiteral line sync) :
    s.SendsWithLiteral line n sync (s.handleCmdLine line) := by
  unfold KeepsLiteral at hk
  have hanswer := handleCmdLine_answer s line
  generalize s.handleCmdLine line = c at hanswer
  cases hanswer with
  | fail p e => exact .inl ⟨p, e, rfl⟩
  | reply hnone hparse hrel =>
    simp only [hnone] at hk
    exact absurd (hk _ hparse).2 hrel
  | send hrec =>
    cases hrec with
    | completed hnone hparse hlit =>
      simp only [hnone] at hk
      obtain ⟨hsome, hrel⟩ := hk _ hparse
      rw [hlit hrel] at hsome
      cases hsome
    | @opened cmd literal hnone hparse hrel hlit =>
      have hsome : cmd.literalArg.isSome = true := by rw [hlit]; rfl
      obtain rfl := Option.some.inj (hlit.symm.trans (Command.parseLine_literal h hparse hsome))
      have hidle : cmd.parsed ≠ .idle := fun hi => not_relaysLiteral_idle s (hi ▸ hrel)
      refine .inr ⟨_, _, rfl, ?_⟩
      cases sync with
      | true => exact ⟨rfl, fun _ => .inl ⟨rfl, cmd, rfl, hlit, hidle⟩⟩
      | false => exact ⟨rfl, nofun⟩
    | idle hnone hparse hrel =>
      simp only [hnone] at hk
      exact absurd (hk _ hparse).2 hrel
    | continued hcmd hparse =>
      simp only [hcmd] at hk
      obtain rfl := Command.parseContinueLine_literal h hparse
      refine .inr ⟨_, _, rfl, ?_⟩
      cases sync with
      | true => exact ⟨rfl, fun _ => .inr ⟨rfl, _, rfl, rfl, fun hi => nomatch hk hi⟩⟩
      | false => exact ⟨rfl, nofun⟩

/-! ### Waiting for the request -/

/-- The relay waits for the request for a literal of `n` bytes, unless the command has its result
    before. -/
structure Waits (n : Nat) (s : Relay cmdCap rspCap χ ω) : Prop where
  main : s.inLoop = .main
  asks : ∀ cmd, s.cmdPipeline.ongoingCommand = some cmd → cmd.AsksFor n
  quiet : match s.pc with
    | .sendUps _ next => next = .loop ∨ ∃ cmd, next = .continued cmd ∧ cmd.AsksFor n
    | .sendClt _ next => next.Quiet
    | .clientLiteral _ | .recvAuthLine => False
    | _ => True

/-- The request is still possible. -/
def Expects (s : Relay cmdCap rspCap χ ω) : Prop :=
  s.cmdPipeline.ongoingCommand ≠ none ∨ ∃ w cmd, s.pc = .sendUps w (.continued cmd)

/-- One move of a relay that waits. -/
def WaitsOn (n : Nat) (s t : Relay cmdCap rspCap χ ω) : Prop := t.Waits n ∧ (t.Expects → s.Expects)

section

variable {s t : Relay cmdCap rspCap χ ω}

/-- The points behind a line of the server, as far as they take nothing of the client. -/
def Answers (s : Relay cmdCap rspCap χ ω) : Prop :=
  match s.pc with
  | .sendClt _ next => next.Quiet
  | .top | .serverLiteral _ => True
  | _ => False

omit [TextFunctions] [AtoiRadix10]

/-- Reading on is waiting on. -/
theorem Waits.readOn (h : s.Waits n) (ht : s.ReadOn t) : WaitsOn n s t := by
  have hreads := ht.reads
  unfold Reads at hreads
  refine ⟨⟨ht.inLoop.trans h.main, ht.pipeline ▸ h.asks, ?_⟩, ?_⟩
  · split at hreads <;> first | exact hreads.elim | simp_all
  · rintro (hne | ⟨w, cmd, hpc⟩)
    · exact .inl (ht.pipeline ▸ hne)
    · rw [hpc] at hreads
      exact hreads.elim

/-- A line of the server leaves the command under way as it is, or ends it. -/
theorem Waits.answer (h : s.Waits n)
    (hp : t.cmdPipeline.ongoingCommand = s.cmdPipeline.ongoingCommand ∨
      t.cmdPipeline.ongoingCommand = none)
    (hmain : t.inLoop = .main) (ht : t.Answers) : WaitsOn n s t := by
  unfold Answers at ht
  refine ⟨⟨hmain, ?_, ?_⟩, ?_⟩
  · intro cmd hcmd
    rcases hp with hp | hp
    · exact h.asks cmd (hp ▸ hcmd)
    · rw [hp] at hcmd; cases hcmd
  · split at ht <;> first | exact ht.elim | simp_all
  · rintro (hne | ⟨w, cmd, hpc⟩)
    · rcases hp with hp | hp
      · exact .inl (hp ▸ hne)
      · exact absurd hp hne
    · rw [hpc] at ht
      exact ht.elim

/-- Behind a line to the client that takes nothing of the client. -/
theorem Waits.afterClt (h : s.Waits n) {next : AfterClt} (hq : next.Quiet)
    (hp : t.cmdPipeline.ongoingCommand = s.cmdPipeline.ongoingCommand ∨
      t.cmdPipeline.ongoingCommand = none)
    (hmain : t.inLoop = .main) : (t.afterClt next).Keeps (WaitsOn n s) := by
  have hfollows := afterClt_follows t next
  generalize t.afterClt next = c at hfollows
  cases hfollows with
  | ends => exact trivial
  | top => exact h.answer hp (hmain ▸ next.ahead_main) trivial
  | authLine hnext => exact absurd hnext hq.1
  | server _ hp' => rcases hp' with rfl | ⟨rsp, -, -, -, rfl⟩ <;> exact h.answer hp hmain trivial
  | client hnext => exact absurd hnext (hq.2 _)

theorem Waits.enter (h : t.Waits n) : t.enter.Waits n := by
  unfold Relay.enter
  split
  case h_1 hpc => exact ⟨h.main, h.asks, by have := h.quiet; simp only [hpc] at this⟩
  case h_2 => exact ⟨h.main, h.asks, trivial⟩
  case h_3 => exact h

theorem Expects.of_enter (h : t.enter.Expects) : t.Expects := by
  unfold Relay.enter at h
  split at h
  case h_1 | h_2 => exact h.imp id nofun
  case h_3 => exact h

end

/-- A step that handles no line of the client and accepts nothing goes on waiting. -/
theorem Waits.step [AsyncWrite χ] [AsyncWrite ω] {s : Relay cmdCap rspCap χ ω} (h : s.Waits n)
    (hs : s.Silent) : s.step.Keeps (WaitsOn n s) := by
  have hquiet := h.quiet
  unfold Relay.step
  cases hpc : s.pc with
  | top => exact (nextRound_readOn s).mono h.readOn id
  | select => exact (chooseBranch_readOn s).mono h.readOn id
  | pollCmd more => exact (pollCmd_readOn s more hpc).mono h.readOn id
  | pollRsp more => exact (pollRsp_readOn s more hpc).mono h.readOn id
  | tick => exact h.answer (.inl rfl) h.main trivial
  | cmdLine line => exact absurd hpc (hs.1 line)
  | rspLine line =>
    have hboth : s.readsBoth = true := by simp [readsBoth, h.main]
    have hanswer := handleRspIn_answer s line
    simp only
    generalize s.handleRspIn line = c at hanswer
    cases hanswer with
    | fail => exact trivial
    | send hp _ hnext => exact h.answer hp.ongoing h.main (hnext ⟨hboth, hs.2 line hpc⟩)
    | skip hp hnext => exact h.afterClt hnext hp.ongoing h.main
  | recvAuthLine => simp only [hpc] at hquiet
  | sendUps w next =>
    simp only [hpc] at hquiet
    refine w.poll.ensures_true.await ?_ ?_
    · intro w' _
      refine ⟨⟨h.main, h.asks, hquiet⟩, ?_⟩
      rintro (hne | ⟨w'', cmd, heq⟩)
      · exact .inl hne
      · obtain ⟨-, rfl⟩ := RelayAt.sendUps.inj heq
        exact .inr ⟨w, cmd, hpc⟩
    · intro _ w' _
      rcases hquiet with rfl | ⟨cmd, rfl, hasks⟩
      · exact h.answer (.inl rfl) h.main trivial
      · simp only [afterUps, hasks.1]
        refine ⟨⟨h.main, ?_, trivial⟩, fun _ => .inr ⟨w, cmd, hpc⟩⟩
        intro cmd' hcmd'
        obtain rfl := Option.some.inj hcmd'
        exact hasks
  | sendClt w next =>
    simp only [hpc] at hquiet
    refine w.poll.ensures_true.await ?_ ?_
    · intro w' _
      exact h.answer (.inl rfl) h.main hquiet
    · intro _ w' _
      exact h.afterClt hquiet (.inl rfl) h.main
  | clientLiteral u => simp only [hpc] at hquiet
  | serverLiteral u =>
    refine (u.poll {}).ensures_true.await ?_ ?_
    · intro u' _
      exact h.answer (.inl rfl) h.main trivial
    · intro _ u' _
      exact h.answer (.inl rfl) h.main trivial

/-! ### Whole runs -/

variable [AsyncWrite χ] [AsyncWrite ω] {log rest : Bytes}

omit [AsyncWrite χ] [AsyncWrite ω] [TextFunctions] [AtoiRadix10] in
/-- Once the literal is on its way, it is kept. -/
theorem LiteralKept.of_moved (h : s.Moved False (log ++ line ++ rest.take n) (rest.drop n)) :
    s.LiteralKept log line rest n := by
  obtain ⟨out, ahead, hv, ho, ha, -⟩ := h
  have hline : ∀ l, s.pc = .cmdLine l → s.upsW.log = out ∧ s.unread = ahead := by
    intro l hpc
    simp only [View, hpc] at hv
    exact ⟨hv.2.1, hv.2.2.1⟩
  refine ⟨?_, ?_, ?_⟩
  · rintro l ⟨hpc, -, -⟩
    rw [(hline l hpc).2]
    exact ha
  · intro _
    exact prefix_or_prefix_of_prefix hv.log_le ho
  · intro l hpc _
    rw [(hline l hpc).1]
    exact ho

/-- A line with a literal was taken: it is sent with the literal, or the request is awaited. -/
def Launched (log line rest : Bytes) (n : Nat) (sync : Bool) (s : Relay cmdCap rspCap χ (Tapped ω)) :
    Prop :=
  s.View (log ++ line ++ rest.take (if sync then 0 else n)) (rest.drop (if sync then 0 else n)) ∧
    (sync = true → s.Waits n)

/-- The move from a line with a literal. -/
theorem moves_literal (hlit : EndsWithLiteral line n sync) (hok : s.StepOk) (hpc : s.pc = .cmdLine line)
    (hloop : s.inLoop ≠ .idle) (hv : s.View log (line ++ rest))
    (hm : (future cmdCap rspCap χ (Tapped ω)).Moves s t) : t.Launched log line rest n sync := by
  simp only [View, hpc] at hv
  obtain ⟨hboth, rfl, hunread, hcur⟩ := hv
  have hmain : s.inLoop = .main := by
    cases hl : s.inLoop <;> simp_all [readsBoth]
  have hbehind : s.behind = rest := by
    rw [behind, hunread, hcur, drop_left]
  have hsends := handleCmdLine_literal (s := s) hlit (hok.keeps line n sync hpc hloop hlit)
  suffices hstep : s.step.Keeps (Launched s.upsW.log line rest n sync) from
    hm.ensures (fun hu => ⟨hu.1.enter, fun hs => (hu.2 hs).enter⟩) hstep
  unfold step
  simp only [hpc]
  rw [if_neg hloop]
  rcases hsends with ⟨p, e, hc⟩ | ⟨p, next, hc, howes, hwait⟩
  · rw [hc]; exact trivial
  · rw [hc]
    refine ⟨⟨rfl, ?_, ?_⟩, ?_⟩
    · show s.upsW.log ++ line ++ s.behind.take next.owes = _
      rw [howes, hbehind]
    · show s.behind.drop next.owes = _
      rw [howes, hbehind]
    · intro hsync
      rcases hwait hsync with ⟨rfl, cmd, hcmd, hasks⟩ | ⟨hnone, cmd, rfl, hasks⟩
      · refine ⟨hmain, ?_, .inl rfl⟩
        intro cmd' hcmd'
        obtain rfl : cmd = cmd' := Option.some.inj (hcmd.symm.trans hcmd')
        exact hasks
      · refine ⟨hmain, ?_, .inr ⟨cmd, rfl, hasks⟩⟩
        intro cmd' hcmd'
        have := hnone.symm.trans hcmd'
        cases this

/-- While the request is awaited nothing is taken from the client. -/
theorem runs_waits (hw : t.Waits n) (hv : t.View log rest) {u : Relay cmdCap rspCap χ (Tapped ω)}
    (hr : (future cmdCap rspCap χ (Tapped ω)).Runs (fun x => x.StepOk ∧ x.Silent) t u) :
    u.Waits n ∧ (u.Expects → u.View log rest) := by
  refine hr.inv (I := fun x => x.Waits n ∧ (x.Expects → x.View log rest)) ⟨hw, fun _ => hv⟩ ?_
  rintro x y ⟨hx, hview⟩ ⟨hok, hsilent⟩ hm
  have hon : WaitsOn n x y :=
    hm.ensures (fun hy => ⟨hy.1.enter, fun he => hy.2 he.of_enter⟩) (hx.step hsilent)
  refine ⟨hon.1, fun he => ?_⟩
  have hexp := hon.2 he
  refine moves_view (hview hexp) ⟨hsilent.1, ?_, ?_, ?_⟩ hm
  · intro hpc
    have := hx.quiet
    simp only [hpc] at this
  · by_contra hne
    rcases hexp with hexp | ⟨w, cmd, hpc⟩
    · obtain ⟨cmd, hcmd⟩ := Option.ne_none_iff_exists'.mp hexp
      exact (hok.skips hne).2 cmd n hcmd (hx.asks cmd hcmd)
    · exact hne (by simp only [skipped, hpc])
  · intro l hpc
    exact ⟨by simp [readsBoth, hx.main], hsilent.2 l hpc⟩

/-- The move from the request for the literal. -/
theorem moves_accepts (hw : s.Waits n) (hv : s.Expects → s.View log rest) (hok : s.StepOk)
    {l : Bytes} (hpc : s.pc = .rspLine l) (hacc : s.Accepts l)
    (hm : (future cmdCap rspCap χ (Tapped ω)).Moves s t) :
    t.View (log ++ rest.take n) (rest.drop n) := by
  suffices hstep : s.step.Keeps (View (log ++ rest.take n) (rest.drop n)) from
    hm.ensures View.enter hstep
  unfold step
  simp only [hpc]
  have hrsp : s.handleRspIn l = s.handleContinuation l := by
    obtain ⟨-, hmode, hparse⟩ := hacc
    have hline : s.handleRspLine l = s.handleContinuation l := by simp only [handleRspLine, hparse]
    simp only [handleRspIn, hw.main]
    rw [← hline, handleRsp_of_reads hmode]
  rw [hrsp]
  unfold handleContinuation
  split
  case h_1 => exact trivial
  case h_2 cmd hcmd =>
    obtain ⟨hlit, hidle⟩ := hw.asks cmd hcmd
    have hboth : s.readsBoth = true := hacc.1
    have hview := hv (.inl (by rw [hcmd]; nofun))
    simp only [View, hpc, if_pos hboth] at hview
    obtain ⟨rfl, rfl⟩ := hview
    have hnil : s.cmdRecvBuf.line = [] := by
      by_contra hne
      have hskip : s.skipped = s.cmdRecvBuf.line := by simp only [skipped, hpc, if_pos hboth]
      exact (hok.skips (hskip ▸ hne)).2 cmd n hcmd ⟨hlit, hidle⟩
    have hbehind : s.behind = s.unread := by rw [← line_append_behind s, hnil]; rfl
    rw [if_neg hidle]
    simp only [hlit]
    rw [← hbehind]
    exact ⟨rfl, rfl⟩

/-- In every run whose steps are fine the literals of the client are safe, in both relays. -/
theorem literalSafe_of_stepOk {s₀ : Relay cmdCap rspCap χ (Tapped ω)} (h₀ : s₀.pc = .top)
    (hr : (future cmdCap rspCap χ (Tapped ω)).Runs StepOk s₀ s) (hs : s.StepOk) :
    s.LiteralSafe StepOk := by
  have hstart : s₀.Moved False s₀.upsW.log s₀.behind := by
    refine View.moved ?_
    simp only [View, h₀]
    exact ⟨rfl, rfl⟩
  obtain ⟨out, ahead, hv, -⟩ := runs_moved hstart hr
  rintro line rest n sync ⟨hunread, ⟨hpc, hloop⟩ | ⟨hskip, hne⟩⟩ hlit
  · have hview : s.View s.upsW.log (line ++ rest) := by
      simp only [View, hpc] at hv ⊢
      exact ⟨hv.1, trivial, hunread, hv.2.2.2⟩
    refine ⟨?_, ?_⟩
    · rintro rfl t u hm hru
      have hsent := (moves_literal hlit hs hpc hloop hview hm).1
      exact .of_moved (runs_moved hsent.moved hru)
    · rintro rfl t v l w u hm hwait hpcv hacc hok hmv hru
      obtain ⟨hsent, hwaits⟩ := moves_literal hlit hs hpc hloop hview hm
      simp only [if_true, take_zero, append_nil, drop_zero] at hsent
      obtain ⟨hwv, hvv⟩ := runs_waits (hwaits rfl) hsent hwait
      exact .of_moved (runs_moved (moves_accepts hwv hvv hok hpcv hacc hmv).moved hru)
  · exact absurd hlit ((hs.skips (hskip ▸ hne)).1 n sync ∘ (hskip ▸ ·))

end

/-- A client that has sent `data`, all of it buffered. -/
def clientOf (mode : Mode) (data : Bytes) (h : data.length ≤ 64) :
    Relay 64 64 (Tapped Sink) (Tapped Sink) where
  fromStarttls := false
  cmdRecvBuf := .ofData data h
  cltR := ⟨[], [], nil_fits⟩
  cltW := tap ⟨[]⟩
  upsR := ⟨[], [], nil_fits⟩
  upsW := tap ⟨[]⟩
  mode := mode

/-- A LOGIN whose user name is a literal. -/
theorem literalSafe_login : ∃ s : Relay 64 64 (Tapped Sink) (Tapped Sink),
    s.Passes (ascii "a LOGIN \x7b3+\x7d\r\n") (ascii "joe pw\r\n") ∧
    EndsWithLiteral (ascii "a LOGIN \x7b3+\x7d\r\n") 3 false ∧ s.LiteralSafe StepOk := by
  have hpass : ∀ {s : Relay 64 64 (Tapped Sink) (Tapped Sink)}, (∀ line, s.pc ≠ .cmdLine line) →
      s.skipped = [] → s.StepOk := fun hpc hskip =>
    ⟨fun line _ _ h => absurd h (hpc line), fun h => absurd hskip h⟩
  let s₀ := clientOf .notAuthenticated (ascii "a LOGIN \x7b3+\x7d\r\njoe pw\r\n") (by decide)
  have hrun : (future 64 64 (Tapped Sink) (Tapped Sink)).Runs StepOk s₀ s₀ := .refl
  have hrun := hrun.step (hpass (fun _ => nofun) rfl) rfl
  have hrun := hrun.step (hpass (fun _ => nofun) rfl) rfl
  have hrun := hrun.step (hpass (fun _ => nofun) rfl) rfl
  refine ⟨_, ⟨?_, .inl ⟨?_, ?_⟩⟩, ?_, literalSafe_of_stepOk rfl hrun ⟨?_, fun h => absurd rfl h⟩⟩
  · rfl
  · rfl
  · nofun
  · exact ⟨ascii "a LOGIN ", ascii "3", rfl, by decide, all_eq_true.mp (by decide), rfl⟩
  · rintro line n sync hpc - -
    obtain rfl := RelayAt.cmdLine.inj hpc
    intro cmd hcmd
    have hparse : Command.parseLine (ascii "a LOGIN \x7b3+\x7d\r\n") =
        .ok ⟨ascii "a", .login, some ⟨3, false⟩⟩ := rfl
    obtain rfl := Except.ok.inj (hparse.symm.trans hcmd)
    exact ⟨rfl, rfl⟩

/-- ID forgets its literal, and the text of the literal is read as a command. -/
theorem not_literalSafe_id : ∃ s₀ s : Relay 64 64 (Tapped Sink) (Tapped Sink), s₀.pc = .top ∧
    (future 64 64 (Tapped Sink) (Tapped Sink)).Runs (fun _ => True) s₀ s ∧
    ¬ s.LiteralSafe fun _ => True := by
  refine ⟨clientOf .authenticated (ascii "a ID \x7b8+\x7d\r\nb NOOP\r\n") (by decide), _, rfl,
    Future.afterWhile_runs (p := fun _ => true) (n := 3) (fun _ _ => trivial) rfl, ?_⟩
  intro h
  have hlit : EndsWithLiteral (ascii "a ID \x7b8+\x7d\r\n") 8 false :=
    ⟨ascii "a ID ", ascii "8", rfl, by decide, all_eq_true.mp (by decide), rfl⟩
  have hsafe := (h _ (ascii "b NOOP\r\n") 8 false ⟨rfl, .inl ⟨rfl, by rintro ⟨⟩⟩⟩ hlit).1 rfl
  have hkept := hsafe _ _ (.next rfl)
    (Future.afterWhile_runs (p := fun _ => true) (n := 5) (fun _ _ => trivial) rfl)
  have hsuffix := hkept.notParsed (ascii "b NOOP\r\n") ⟨rfl, by rintro ⟨⟩, rfl⟩
  revert hsuffix
  decide

end Relay

end Vey.Imap
