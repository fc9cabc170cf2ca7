import Vey.Imap.Delivery
import Vey.Imap.Literals

/-! Responses with literals.

        * 1 FETCH (BODY[1] {3}  -->  3 bytes  -->   BODY[2] {4}  -->  4 bytes  -->  )
          text                       literal        text              literal       last text

    Behind a literal the response goes on, and its next text is no response of its own. The mark for
    that is `ongoingResponse`: it is set with the first literal, taken with each text and has to be
    set again with each further literal. Where the relay does so, the client gets the response as it
    was sent and no mark is left; `RspStepOk` says what a step has to meet. -/

namespace Vey.Imap
open Schemes Vey.Types IoExt Serve List Response

/-! ### The texts of a response -/

/-- The text ends in a literal of the given size, or in none. -/
def LiteralAt (left : Bytes) : Option Nat → Prop
  | some n => ∃ head ds sync, left = head ++ literalText ds sync ∧ ds ≠ [] ∧
      (∀ b ∈ ds, (decVal b).isSome = true) ∧ numeral 10 decVal ds = n
  | none => ∀ head ds sync, (∀ b ∈ ds, (decVal b).isSome = true) → left ≠ head ++ literalText ds sync

/-- A line of a response and the size of the literal behind it. -/
def IsText (text : Bytes) (size : Option Nat) : Prop :=
  IsLine text ∧ ∃ left, text = left ++ [cr, lf] ∧ LiteralAt left size

/-- Cutting at a blank changes nothing at the end. -/
theorem LiteralAt.drop_blank {left : Bytes} {size : Option Nat} {d : Nat} (h : LiteralAt left size)
    (hd : memchr 32 left = some d) : LiteralAt (left.drop (d + 1)) size := by
  cases size with
  | some n =>
    obtain ⟨head, ds, sync, rfl, hne, hds, hn⟩ := h
    obtain ⟨head', hhead'⟩ := drop_blank_literal hds hd
    exact ⟨head', ds, sync, hhead', hne, hds, hn⟩
  | none =>
    intro head ds sync hds heq
    refine h (left.take (d + 1) ++ head) ds sync hds ?_
    rw [append_assoc, ← heq, take_append_drop]

namespace Response

section

variable [AtoiRadix10] {left : Bytes} {size size' : Option Nat}

theorem checkLiteralSize_some {n : Nat} (h : checkLiteralSize left = .ok (some n)) :
    ∃ head ds sync, left = head ++ literalText ds sync ∧ ∀ b ∈ ds, (decVal b).isSome = true := by
  unfold checkLiteralSize at h
  split at h
  case isFalse => cases h
  case isTrue hlast =>
    split at h
    case h_1 => cases h
    case h_2 p hp =>
      have hsplit := split_braces hlast hp
      dsimp only at h
      generalize hbuf : win left (p + 1) (left.length - 1) = buf at h hsplit
      split at h
      case isTrue => cases h
      case isFalse =>
        split at h
        case h_1 => cases h
        case h_2 m offset heq =>
          obtain ⟨rfl, hall, hplus⟩ := digits_size heq
          split at h
          case isFalse => cases h
          case isTrue hend =>
            rcases hend with hend | hend
            · refine ⟨left.take p, digits decVal buf, true, ?_, fun b => mem_digits⟩
              rw [literalText_eq, if_pos rfl, append_nil, ← hall hend]
              exact hsplit
            · refine ⟨left.take p, digits decVal buf, false, ?_, fun b => mem_digits⟩
              rw [literalText_eq, if_neg (by decide), ← hplus hend]
              exact hsplit

/-- The size that is read is the one that was written. -/
theorem checkLiteralSize_ok (h : LiteralAt left size) (hc : checkLiteralSize left = .ok size') :
    size' = size := by
  cases size with
  | none =>
    cases size' with
    | none => rfl
    | some n =>
      obtain ⟨head, ds, sync, heq, hds⟩ := checkLiteralSize_some hc
      exact absurd heq (h head ds sync hds)
  | some n =>
    obtain ⟨head, ds, sync, rfl, hne, hds, rfl⟩ := h
    unfold checkLiteralSize at hc
    rw [if_pos (getLast?_literalText head ds sync), memrchr_literalText head hds] at hc
    simp only [win_literalText] at hc
    rw [if_neg (by simp [hne])] at hc
    split at hc
    case h_1 => cases hc
    case h_2 m offset heq =>
      obtain ⟨rfl, rfl⟩ := size_literal sync hds heq
      rw [if_pos (by cases sync <;> simp)] at hc
      exact (Except.ok.inj hc).symm

variable [TextFunctions] {d : UntaggedResponse}

theorem parseNumbered_literal (h : LiteralAt left size)
    (hp : parseNumbered left = .ok (.commandData d)) :
    d.literalData = none ∨ d.literalData = size := by
  unfold parseNumbered at hp
  split at hp
  all_goals
    obtain ⟨r2, -, hp⟩ := bind_ok hp
    split at hp
  case h_1.isTrue =>
    obtain ⟨size', hc, hp⟩ := bind_ok hp
    obtain rfl := commandData.inj (Except.ok.inj hp)
    exact .inr (checkLiteralSize_ok h hc)
  case h_2.isTrue =>
    obtain rfl := commandData.inj (Except.ok.inj hp)
    exact .inl rfl
  all_goals cases hp

theorem parseUntagged_literal (h : LiteralAt left size)
    (hp : parseUntagged left = .ok (.commandData d)) :
    d.literalData = none ∨ d.literalData = size := by
  unfold parseUntagged at hp
  split at hp
  case h_1 p hpos =>
    obtain ⟨r1, -, hp⟩ := bind_ok hp
    dsimp only at hp
    split at hp
    case h_1 => cases hp
    case h_2 =>
      obtain ⟨size', hc, hp⟩ := bind_ok hp
      obtain rfl := commandData.inj (Except.ok.inj hp)
      exact .inr (checkLiteralSize_ok h hc)
    case h_3 =>
      obtain rfl := commandData.inj (Except.ok.inj hp)
      exact .inl rfl
    case h_4 => exact parseNumbered_literal (h.drop_blank hpos) hp
  case h_2 =>
    obtain ⟨r1, -, hp⟩ := bind_ok hp
    split at hp
    case isFalse => cases hp
    case isTrue =>
      obtain rfl := commandData.inj (Except.ok.inj hp)
      exact .inl rfl

/-- The literal of a response is read as it was written, or missed. -/
theorem parseLine_literal {text : Bytes} (h : IsText text size)
    (hp : parseLine text = .ok (.commandData d)) : d.literalData = none ∨ d.literalData = size := by
  obtain ⟨-, left, rfl, hleft⟩ := h
  unfold parseLine at hp
  rw [stripSuffix_append] at hp
  dsimp only at hp
  split at hp
  case isTrue => cases hp
  case isFalse =>
    split at hp
    case h_1 => cases hp
    case h_2 p hpos =>
      split at hp
      case isTrue => cases hp
      case isFalse =>
        split at hp
        case isTrue => exact parseUntagged_literal (hleft.drop_blank hpos) hp
        case isFalse =>
          split at hp
          case isTrue => cases hp
          case isFalse =>
            obtain ⟨_, -, hp⟩ := bind_ok hp
            cases hp

end

end Response

/-- Behind a literal. -/
theorem UntaggedResponse.parseContinueLine_literal [AtoiRadix10] {text : Bytes} {size : Option Nat}
    {r r' : UntaggedResponse} (h : IsText text size) (hp : r.parseContinueLine text = .ok r') :
    r'.literalData = size := by
  obtain ⟨-, left, rfl, hleft⟩ := h
  unfold parseContinueLine at hp
  rw [stripSuffix_append] at hp
  dsimp only at hp
  split at hp
  case isTrue hnil =>
    obtain rfl := Except.ok.inj hp
    cases size with
    | none => rfl
    | some n =>
      obtain ⟨head, ds, sync, heq, -⟩ := hleft
      rw [hnil] at heq
      simp [literalText] at heq
  case isFalse =>
    obtain ⟨size', hc, hp⟩ := bind_ok hp
    obtain rfl := Except.ok.inj hp
    exact checkLiteralSize_ok hleft hc

/-- A response as the server sends it: texts with the literals behind them, and the last text. -/
structure DataResponse where
  parts : List (Bytes × Bytes)
  last : Bytes
  opens : ∀ part ∈ parts, IsText part.1 (some part.2.length)
  ends : IsText last none

namespace DataResponse

variable (r : DataResponse)

def first : Bytes := (r.parts.head?.map Prod.fst).getD r.last

/-- The literal behind the first text. -/
def literal : Bytes := (r.parts.head?.map Prod.snd).getD []

/-- The size of a literal behind the first text. -/
def size : Option Nat := r.parts.head?.map fun part => part.2.length

/-- What the server sends from some text on. -/
def wireOf (last : Bytes) : List (Bytes × Bytes) → Bytes
  | [] => last
  | (text, literal) :: parts => text ++ literal ++ wireOf last parts

def wire : Bytes := wireOf r.last r.parts

/-- What goes on behind the first literal. -/
def later : Bytes := (r.parts.tail?.map (wireOf r.last)).getD []

theorem wire_eq : r.wire = r.first ++ r.literal ++ r.later := by
  obtain ⟨_ | ⟨⟨text, literal⟩, parts⟩, last, hopens, hends⟩ := r
  · simp [wire, wireOf, first, literal, later]
  · rfl

theorem isText_first : IsText r.first r.size := by
  obtain ⟨_ | ⟨⟨text, literal⟩, parts⟩, last, hopens, hends⟩ := r
  · exact hends
  · exact hopens _ mem_cons_self

theorem size_getD : r.size.getD 0 = r.literal.length := by
  obtain ⟨_ | ⟨⟨text, literal⟩, parts⟩, last, hopens, hends⟩ := r <;> rfl

/-- The response ends with its first text, or goes on behind a literal. -/
theorem later_cases : (r.size = none ∧ r.later = []) ∨
    (r.size ≠ none ∧ ∃ r' : DataResponse, r.later = r'.wire) := by
  obtain ⟨_ | ⟨⟨text, literal⟩, parts⟩, last, hopens, hends⟩ := r
  · exact .inl ⟨rfl, rfl⟩
  · exact .inr ⟨nofun, ⟨parts, last, fun part h => hopens part (mem_cons_of_mem _ h), hends⟩,
      rfl⟩

theorem first_le_wire : r.first <+: r.wire := by
  rw [wire_eq, append_assoc]
  exact prefix_append _ _

theorem wire_ne_nil : r.wire ≠ [] := by
  intro h
  have hle := r.first_le_wire
  rw [h] at hle
  exact r.isText_first.1.ne_nil (prefix_nil.mp hle)

end DataResponse

namespace Relay

variable {cmdCap rspCap : Nat} {χ ω : Type}

/-! ### What is promised -/

section

variable [TextFunctions] [AtoiRadix10]

/-- The line of the server that a line of the client or a tick drops unseen. -/
def dropsRsp (s : Relay cmdCap rspCap χ ω) : Bytes :=
  match s.pc with
  | .cmdLine _ | .tick => s.rspRecvBuf.line
  | _ => []

/-- Data that is not filtered. -/
def unfiltered (kind : CommandData) : Prop := kind ≠ .capability ∧ kind ≠ .enabled

/-- A response of data has come in: its first text is handled, or it is dropped unseen. -/
def Receives (r : DataResponse) (rest : Bytes) (s : Relay cmdCap rspCap χ ω) : Prop :=
  s.rspUnread = r.wire ++ rest ∧ s.ReadsRsp ∧
    (∃ d, Response.parseLine r.first = .ok (.commandData d) ∧ unfiltered d.commandData) ∧
    (s.pc = .rspLine r.first ∨ s.dropsRsp = r.first)

/-- The response in front of `rest` is passed on as `whole` shows it at the client. -/
structure ResponseKept (whole rest : Bytes) (s : Relay cmdCap rspCap (Tapped χ) ω) : Prop where
  notParsed : ∀ line, s.pc = .rspLine line → s.ReadsRsp → s.rspUnread.length ≤ rest.length
  inOrder : s.cltW.log <+: whole ∨ whole <+: s.cltW.log
  complete : s.Reads → s.rspUnread.length ≤ rest.length → whole <+: s.cltW.log
  closed : s.Reads → s.rspUnread = rest → s.cmdPipeline.ongoingResponse = none

variable [AsyncWrite χ] [AsyncWrite ω]

/-- A response is safe when it is kept in all runs over states with `P`. -/
def ResponseSafe (P : Relay cmdCap rspCap (Tapped χ) ω → Prop)
    (s : Relay cmdCap rspCap (Tapped χ) ω) : Prop :=
  ∀ r rest, s.Receives r rest → ∀ t u, (future cmdCap rspCap (Tapped χ) ω).Moves s t →
    (future cmdCap rspCap (Tapped χ) ω).Runs P t u → u.ResponseKept (s.cltW.log ++ r.wire) rest

/-! ### What a step has to meet -/

/-- A literal is met by an authenticated client, by data that may have one, and behind the first one
    not in IDLE; no other response is marked when one begins. Between its texts nothing of the server
    is dropped and no command is answered by the proxy itself. -/
structure RspStepOk (s : Relay cmdCap rspCap χ ω) : Prop where
  fresh : ∀ line, s.pc = .rspLine line → s.ReadsRsp → s.cmdPipeline.ongoingResponse = none
  opens : ∀ line n d, s.pc = .rspLine line → s.ReadsRsp → IsText line (some n) →
    Response.parseLine line = .ok (.commandData d) →
    d.literalData ≠ none ∧ s.mode = .authenticated ∧ s.readsBoth = true
  reopens : ∀ line n, s.pc = .rspLine line → ¬ s.ReadsRsp → IsText line (some n) → s.inLoop ≠ .idle
  drops : s.dropsRsp ≠ [] → s.ReadsRsp ∧ ∀ d, Response.parseLine s.dropsRsp ≠ .ok (.commandData d)
  replies : ∀ line cmd, s.pc = .cmdLine line → ¬ s.ReadsRsp → s.inLoop ≠ .idle →
    s.cmdPipeline.ongoingCommand = none → Command.parseLine line = .ok cmd →
    cmd.parsed ∈ alwaysForwarded ∨ s.relaysLiteral cmd.parsed

end

/-! ### In the middle of a response -/

section

variable {out whole rest : Bytes} {r : DataResponse} {s : Relay cmdCap rspCap (Tapped χ) ω}

/-- The response goes on behind the present text. -/
def Underway (s : Relay cmdCap rspCap χ ω) : Prop :=
  match s.pc with
  | .sendClt _ (.continued rsp) => rsp.literalData ≠ none ∧ s.inLoop ≠ .idle
  | _ => s.cmdPipeline.ongoingResponse ≠ none

/-- `out` of a response is on its way, and `r` of it is still to come. -/
structure Midway (out : Bytes) (r : DataResponse) (rest : Bytes)
    (s : Relay cmdCap rspCap (Tapped χ) ω) : Prop where
  shown : s.Shown out (r.wire ++ rest)
  underway : s.Underway
  mode : s.mode = .authenticated
  both : s.readsBoth = true
  ups : ∀ w next, s.pc = .sendUps w next → next ≠ .authenticate ∧ next ≠ .startTls

/-- A response is in the middle, or all of it is on its way. -/
def InResponse (whole rest : Bytes) (s : Relay cmdCap rspCap (Tapped χ) ω) : Prop :=
  (∃ out r, s.Midway out r rest ∧ out ++ r.wire = whole) ∨ s.Shows True whole rest

theorem underway_iff {s : Relay cmdCap rspCap χ ω}
    (hpc : ∀ w rsp, s.pc ≠ .sendClt w (.continued rsp)) :
    s.Underway ↔ s.cmdPipeline.ongoingResponse ≠ none := by
  unfold Underway
  split
  case h_1 w rsp h => exact absurd h (hpc w rsp)
  case h_2 => rfl

section

variable (hpc : ∀ w rsp, s.pc ≠ .sendClt w (.continued rsp))

include hpc

/-- Where a response is under way no response is parsed. -/
theorem Midway.not_readsRsp (h : s.Midway out r rest) : ¬ s.ReadsRsp := by
  intro hreads
  rcases hreads h.both with hm | hnone
  · rw [h.mode] at hm; cases hm
  · exact (underway_iff hpc).mp h.underway hnone

/-- A step to a state that is not about to send a text. -/
theorem Midway.goes {t : Relay cmdCap rspCap (Tapped χ) ω} (h : s.Midway out r rest)
    (ht : t.Shown out (r.wire ++ rest)) (hpc' : ∀ w rsp, t.pc ≠ .sendClt w (.continued rsp))
    (hrsp : t.cmdPipeline.ongoingResponse = s.cmdPipeline.ongoingResponse) (hmode : t.mode = s.mode)
    (hboth : t.readsBoth = true)
    (hups : ∀ w next, t.pc = .sendUps w next → next ≠ .authenticate ∧ next ≠ .startTls) :
    t.Midway out r rest := by
  refine ⟨ht, (underway_iff hpc').mpr ?_, hmode.trans h.mode, hboth, hups⟩
  rw [hrsp]
  exact (underway_iff hpc).mp h.underway

theorem Midway.coasts {t : Relay cmdCap rspCap (Tapped χ) ω} (h : s.Midway out r rest)
    (ht : t.Shown out (r.wire ++ rest)) (hc : s.Coasts t) : t.Midway out r rest := by
  refine h.goes hpc ht (fun w _ => hc.clt w _) (by rw [hc.pipeline]) hc.mode ?_ ?_
  · have := h.both
    simpa only [readsBoth, hc.inLoop] using this
  · intro w next heq
    rw [hc.ups w next heq]
    exact ⟨by simp, by simp⟩

end

/-- The first text of `r` is sent, with its literal. -/
theorem shown_first {p : CommandPipeline} {next : AfterClt} (hlog : s.cltW.log = out)
    (hunread : s.rspUnread = r.wire ++ rest) (hline : s.rspRecvBuf.line = r.first)
    (hnext : next.brings = r.literal.length) :
    Shown (out ++ r.first ++ r.literal) (r.later ++ rest)
      { s with cmdPipeline := p, pc := .sendClt ⟨r.first, s.cltW⟩ next } := by
  have hbehind : s.rspBehind = r.literal ++ (r.later ++ rest) := by
    rw [rspBehind, hunread, hline, r.wire_eq]
    simp only [append_assoc, drop_left]
  refine ⟨rfl, ?_, ?_⟩
  · show s.cltW.log ++ r.first ++ s.rspBehind.take next.brings = _
    rw [hnext, hbehind, take_left, hlog]
  · show s.rspBehind.drop next.brings = _
    rw [hnext, hbehind, drop_left]

/-- From a text of the response on. -/
theorem inResponse_first {t : Relay cmdCap rspCap (Tapped χ) ω} (hwhole : out ++ r.wire = whole)
    (ht : t.Shown (out ++ r.first ++ r.literal) (r.later ++ rest))
    (hclosed : r.size = none → t.Closed)
    (hmid : r.size ≠ none → t.Underway ∧ t.mode = .authenticated ∧ t.readsBoth = true ∧
      ∀ w next, t.pc ≠ .sendUps w next) : t.InResponse whole rest := by
  rw [r.wire_eq] at hwhole
  rcases r.later_cases with ⟨hnone, hlater⟩ | ⟨hsome, r', hlater⟩
  · right
    rw [hlater, append_nil, ← append_assoc] at hwhole
    rw [hlater, nil_append, hwhole] at ht
    exact ht.shows fun _ => hclosed hnone
  · left
    obtain ⟨hunder, hmode, hboth, hups⟩ := hmid hsome
    rw [hlater] at ht hwhole
    refine ⟨_, r', ⟨ht, hunder, hmode, hboth, fun w next h => absurd h (hups w next)⟩, ?_⟩
    rw [← hwhole]
    simp only [append_assoc]

/-- What is left of a response is not empty. -/
theorem Midway.log_le (h : s.Midway out r rest) (hwhole : out ++ r.wire = whole) :
    s.cltW.log <+: whole :=
  h.shown.log_le.trans (hwhole ▸ prefix_append _ _)

/-- At the points where a line is found, the server is as far as the client. -/
theorem Shown.of_reads {ahead : Bytes} (h : s.Shown out ahead) (hreads : s.Reads) :
    s.cltW.log = out ∧ s.rspUnread = ahead := by
  unfold Reads at hreads
  unfold Shown at h
  split at hreads <;> simp_all

theorem Reads.not_sendClt {s : Relay cmdCap rspCap χ ω} (h : s.Reads) (w : WriteAllFlush χ)
    (next : AfterClt) : s.pc ≠ .sendClt w next := by
  intro heq
  simp only [Reads, heq] at h

/-- What is promised holds in the middle of a response and behind it. -/
theorem InResponse.kept (h : s.InResponse whole rest) : s.ResponseKept whole rest := by
  rcases h with ⟨out, r, hmid, hwhole⟩ | ⟨out, ahead, hv, ho, hahead⟩
  · have hlong : s.Reads → ¬ s.rspUnread.length ≤ rest.length := by
      intro hreads
      have hpos := length_pos_iff.mpr r.wire_ne_nil
      rw [(hmid.shown.of_reads hreads).2, length_append]
      omega
    refine ⟨?_, .inl (hmid.log_le hwhole), ?_, ?_⟩
    · intro line hpc hreads
      exact absurd hreads (hmid.not_readsRsp (by simp [hpc]))
    · intro hreads hle
      exact absurd hle (hlong hreads)
    · intro hreads heq
      exact absurd (heq ▸ Nat.le_refl _) (hlong hreads)
  · have hle : ahead.length ≤ rest.length := by
      rcases hahead with ⟨rfl, -⟩ | ⟨-, hlt⟩
      · exact Nat.le_refl _
      · exact Nat.le_of_lt hlt
    refine ⟨?_, prefix_or_prefix_of_prefix hv.log_le ho, ?_, ?_⟩
    · intro line hpc _
      have hreads : s.Reads := by simp only [Reads, hpc]
      rw [(hv.of_reads hreads).2]
      exact hle
    · intro hreads _
      rw [(hv.of_reads hreads).1]
      exact ho
    · intro hreads heq
      rw [(hv.of_reads hreads).2] at heq
      rcases hahead with ⟨-, hc⟩ | ⟨-, hlt⟩
      · exact (closed_iff fun w rsp => hreads.not_sendClt w _).mp (hc trivial)
      · rw [heq] at hlt
        exact absurd hlt (Nat.lt_irrefl _)

/-! ### Steps -/

theorem afterClt_underway {s : Relay cmdCap rspCap χ ω} (next : AfterClt)
    (hunder : match next with
      | .continued rsp => rsp.literalData ≠ none ∧ s.inLoop ≠ .idle
      | _ => s.cmdPipeline.ongoingResponse ≠ none)
    (hmode : s.mode = .authenticated) (hboth : s.readsBoth = true) :
    (s.afterClt next).Keeps (fun t => t.cmdPipeline.ongoingResponse ≠ none ∧
      t.mode = .authenticated ∧ t.readsBoth = true ∧ (t.pc = .top ∨ t.pc = .recvAuthLine ∨
        (∃ u, t.pc = .clientLiteral u) ∨ ∃ u, t.pc = .serverLiteral u)) := by
  cases next with
  | close => exact trivial
  | loop => exact ⟨hunder, hmode, hboth, .inl rfl⟩
  | authLine => exact ⟨hunder, hmode, hboth, .inr (.inl rfl)⟩
  | sendLiteral n => exact ⟨hunder, hmode, hboth, .inr (.inr (.inr ⟨_, rfl⟩))⟩
  | result cmd result =>
    unfold afterClt withResult
    dsimp only
    split
    · split
      · exact ⟨hunder, rfl, hboth, .inl rfl⟩
      all_goals exact ⟨hunder, hmode, hboth, .inl rfl⟩
    · exact ⟨hunder, hmode, hboth, .inl rfl⟩
  | authenticated result =>
    refine ⟨hunder, ?_, rfl, .inl rfl⟩
    split
    · rfl
    · exact hmode
  | startTls result =>
    unfold afterClt
    dsimp only
    split
    · exact trivial
    · exact ⟨hunder, hmode, rfl, .inl rfl⟩
  | recvClientLiteral n =>
    exact relayClientLiteral_rule fun _ => ⟨hunder, hmode, hboth, .inr (.inr (.inl ⟨_, rfl⟩))⟩
  | continued rsp =>
    obtain ⟨kind, _ | n⟩ := rsp
    · exact absurd rfl hunder.1
    · unfold afterClt
      dsimp only
      rw [if_neg hunder.2]
      exact ⟨nofun, hmode, hboth, .inr (.inr (.inr ⟨_, rfl⟩))⟩

variable [TextFunctions] [AtoiRadix10] {line : Bytes} {d : UntaggedResponse}

/-- The next text of a response that is under way. -/
theorem Midway.handleRspIn (h : s.Midway out r rest) (hok : s.RspStepOk)
    (hpc : s.pc = .rspLine line) (hwhole : out ++ r.wire = whole) :
    (s.handleRspIn line).Keeps (InResponse whole rest) := by
  have hshown := h.shown
  simp only [Shown, hpc] at hshown
  obtain ⟨hlog, hunread, hcur, hline⟩ := hshown
  have hne : s.cmdPipeline.ongoingResponse ≠ none := (underway_iff (by simp [hpc])).mp h.underway
  obtain ⟨rsp, hrsp⟩ := Option.ne_none_iff_exists'.mp hne
  have hfirst : line = r.first := by
    refine hline.eq_of_prefixes r.isText_first.1 (u := s.rspUnread) ?_ ?_
    · rw [← hcur, ← line_append_rspBehind]
      exact prefix_append _ _
    · rw [hunread]
      exact r.first_le_wire.trans (prefix_append _ _)
  subst hfirst
  have hboth : s.inLoop = .main ∨ s.inLoop = .idle := by
    have := h.both
    simpa [readsBoth] using this
  have heq : s.handleRspIn r.first = s.handleRsp r.first := by
    unfold Relay.handleRspIn
    rcases hboth with hl | hl <;> simp only [hl]
  rw [heq]
  unfold handleRsp
  simp only [h.mode, hrsp]
  cases hparse : rsp.parseContinueLine r.first with
  | error e => exact trivial
  | ok rsp' =>
    have hsize := UntaggedResponse.parseContinueLine_literal r.isText_first hparse
    have hbrings : (AfterClt.continued rsp').brings = r.literal.length := by
      rw [← r.size_getD, ← hsize]
      obtain ⟨kind, _ | n⟩ := rsp' <;> rfl
    refine inResponse_first (r := r) hwhole (by exact shown_first hlog hunread hcur hbrings) ?_ ?_
    · intro hnone
      exact ⟨hsize.trans hnone, rfl⟩
    · intro hsome
      refine ⟨⟨?_, ?_⟩, rfl, h.both, by simp⟩
      · rw [hsize]; exact hsome
      · obtain ⟨n, hn⟩ := Option.ne_none_iff_exists'.mp hsome
        have htext := r.isText_first
        rw [hn] at htext
        exact hok.reopens r.first n hpc (h.not_readsRsp (by simp [hpc])) htext

/-- Nothing of the server is dropped in the middle. -/
theorem Midway.rspBehind (h : s.Midway out r rest) (hok : s.RspStepOk)
    (hpc : s.pc = .tick ∨ ∃ line, s.pc = .cmdLine line) :
    s.cltW.log = out ∧ s.rspBehind = r.wire ++ rest := by
  have hnot : ∀ w rsp, s.pc ≠ .sendClt w (.continued rsp) := by
    rcases hpc with hpc | ⟨line, hpc⟩ <;> simp [hpc]
  have hnil : s.rspRecvBuf.line = [] := by
    by_contra hne
    refine h.not_readsRsp hnot (hok.drops ?_).1
    rcases hpc with hpc | ⟨line, hpc⟩ <;> simpa only [dropsRsp, hpc] using hne
  have hshown : s.cltW.log = out ∧ s.rspUnread = r.wire ++ rest := by
    have := h.shown
    rcases hpc with hpc | ⟨line, hpc⟩ <;> simpa only [Shown, hpc] using this
  refine ⟨hshown.1, ?_⟩
  rw [← hshown.2, ← line_append_rspBehind s, hnil]
  rfl

theorem Midway.handleCmdLine (h : s.Midway out r rest) (hok : s.RspStepOk)
    (hpc : s.pc = .cmdLine line) (hloop : s.inLoop ≠ .idle) :
    (s.handleCmdLine line).Keeps (Midway out r rest) := by
  obtain ⟨hlog, hbehind⟩ := h.rspBehind hok (.inr ⟨line, hpc⟩)
  have hnot : ¬ s.ReadsRsp := h.not_readsRsp (by simp [hpc])
  have hanswer := handleCmdLine_answer s line
  generalize s.handleCmdLine line = c at hanswer
  cases hanswer with
  | fail => exact trivial
  | reply hnone hparse hrel hkind =>
    rcases hok.replies line _ hpc hnot hloop hnone hparse with hin | hrel'
    · exact absurd hin (hkind h.mode)
    · exact absurd hrel' hrel
  | @send sent p next hrec =>
    refine h.goes (by simp [hpc]) (by exact ⟨hlog, hbehind⟩) (fun _ _ => nofun) hrec.response rfl
      h.both ?_
    intro w next' heq
    obtain ⟨-, rfl⟩ := RelayAt.sendUps.inj heq
    cases hrec with
    | completed _ _ _ _ hnext =>
      rcases hnext with hnext | ⟨hm, -⟩
      · constructor <;> rintro rfl <;> simp at hnext
      · rw [h.mode] at hm; cases hm
    | opened => split <;> exact ⟨nofun, nofun⟩
    | idle | continued => exact ⟨nofun, nofun⟩

/-- Data that is not filtered is sent as it is. -/
theorem handleRspIn_data {s : Relay cmdCap rspCap χ ω} (hreads : s.ReadsRsp)
    (hparse : parseLine line = .ok (.commandData d)) (hkind : unfiltered d.commandData)
    (hboth : d.literalData ≠ none → s.readsBoth = true) :
    s.handleRspIn line = match d.literalData with
      | some size => { s with cmdPipeline := s.cmdPipeline.setOngoingResponse d }.sendClt line
          (.sendLiteral size)
      | none => s.sendClt line .loop := by
  have hwrite : ∀ (t : Relay cmdCap rspCap χ ω) next,
      t.writeCommandData line d.commandData next = t.sendClt line next := by
    intro t next
    unfold writeCommandData
    split
    case h_1 h => exact absurd h hkind.1
    case h_2 h => exact absurd h hkind.2
    case h_3 => rfl
  have hrsp : s.readsBoth = true → s.handleRsp line = s.handleCommandData line d := by
    intro hb
    rw [handleRsp_of_reads (hreads hb)]
    simp only [handleRspLine, hparse]
  have hof : s.readsBoth = false → ∀ cmd name done,
      s.handleRspOf cmd name done line = s.sendClt line .loop ∧ d.literalData = none := by
    intro hb cmd name done
    refine ⟨?_, ?_⟩
    · simp only [handleRspOf, hparse]
      rw [if_neg hkind.1]
    · by_contra hne
      rw [hboth hne] at hb
      cases hb
  unfold Relay.handleRspIn
  split
  case h_1 hl | h_2 hl =>
    rw [hrsp (by simp [readsBoth, hl]), handleCommandData]
    cases d.literalData <;> exact hwrite _ _
  case h_3 hl | h_4 hl =>
    obtain ⟨heq, hnone⟩ := hof (by simp [readsBoth, hl]) _ _ _
    rw [heq, hnone]

/-- The first text of a response. -/
theorem handleRspIn_first (hlog : s.cltW.log = out) (hunread : s.rspUnread = r.wire ++ rest)
    (hcur : s.rspRecvBuf.line = r.first) (hok : s.RspStepOk) (hpc : s.pc = .rspLine r.first)
    (hreads : s.ReadsRsp) (hparse : parseLine r.first = .ok (.commandData d))
    (hkind : unfiltered d.commandData) :
    (s.handleRspIn r.first).Keeps (InResponse (out ++ r.wire) rest) := by
  have hopens : r.size ≠ none → d.literalData ≠ none ∧ s.mode = .authenticated ∧
    s.readsBoth = true := by
    intro hsome
    obtain ⟨n, hn⟩ := Option.ne_none_iff_exists'.mp hsome
    exact hok.opens r.first n d hpc hreads (hn ▸ r.isText_first) hparse
  have hsize : d.literalData = r.size := by
    rcases parseLine_literal r.isText_first hparse with hnone | heq
    · by_contra hne
      refine (hopens fun h => hne ?_).1 hnone
      rw [hnone, h]
    · exact heq
  rw [handleRspIn_data hreads hparse hkind fun h => (hopens (hsize ▸ h)).2.2]
  cases hd : d.literalData with
  | none =>
    have hnone : r.size = none := hsize.symm.trans hd
    have hbrings : AfterClt.loop.brings = r.literal.length := by
      rw [← r.size_getD, hnone]
      rfl
    refine inResponse_first (r := r) rfl
      (by exact shown_first (p := s.cmdPipeline) hlog hunread hcur hbrings) ?_ ?_
    · intro _
      exact hok.fresh r.first hpc hreads
    · intro hsome
      exact absurd hnone hsome
  | some n =>
    have hsome : r.size = some n := hsize.symm.trans hd
    have hbrings : (AfterClt.sendLiteral n).brings = r.literal.length := by
      rw [← r.size_getD, hsome]
      rfl
    refine inResponse_first (r := r) rfl (by exact shown_first hlog hunread hcur hbrings) ?_ ?_
    · intro hnone
      rw [hsome] at hnone
      cases hnone
    · intro hne
      exact ⟨nofun, (hopens hne).2.1, (hopens hne).2.2, nofun⟩

variable [AsyncWrite χ] [AsyncWrite ω]

/-- One step in the middle of a response. -/
theorem Midway.step (h : s.Midway out r rest) (hok : s.RspStepOk) (hwhole : out ++ r.wire = whole) :
    s.step.Keeps (InResponse whole rest) := by
  have hmid : ∀ {t : Relay cmdCap rspCap (Tapped χ) ω}, t.Midway out r rest →
      t.InResponse whole rest := fun ht => .inl ⟨out, r, ht, hwhole⟩
  rcases s.step_kinds with hcoast | hpc | ⟨line, hpc⟩ | ⟨line, hpc⟩ | ⟨w, next, hpc⟩ | ⟨w, next, hpc⟩
  · refine ((step_shown h.shown hcoast).and (step_coasts hcoast)).mono ?_ id
    rintro t ⟨ht, hc⟩
    exact hmid (h.coasts (fun w _ => hcoast.not_sendClt w _) ht hc)
  all_goals
    have hshown := h.shown
    simp only [Shown, hpc] at hshown
    simp only [Relay.step, hpc]
  · exact hmid (h.goes (by simp [hpc]) (by exact h.rspBehind hok (.inl hpc)) (fun _ _ => (by simp))
      rfl rfl
      h.both (by simp))
  · split
    case isTrue =>
      unfold handleIdleLine
      split
      · refine hmid (h.goes (by simp [hpc]) (by exact h.rspBehind hok (.inr ⟨line, hpc⟩))
          (fun _ _ => (by simp)) rfl rfl h.both ?_)
        intro w next heq
        obtain ⟨-, rfl⟩ := RelayAt.sendUps.inj heq
        exact ⟨by simp, by simp⟩
      · exact trivial
    case isFalse hloop => exact (h.handleCmdLine hok hpc hloop).mono hmid id
  · exact h.handleRspIn hok hpc hwhole
  · have hups := h.ups w next hpc
    refine w.poll.ensures_true.await ?_ ?_
    · intro w' _
      refine hmid (h.goes (by simp [hpc]) (by exact hshown) (fun _ _ => (by simp)) rfl rfl h.both ?_)
      intro w'' next' heq
      obtain ⟨-, rfl⟩ := RelayAt.sendUps.inj heq
      exact hups
    · intro _ w' _
      have hq : { s with upsW := w'.writer, pc := .sendUps w next }.Quits out (r.wire ++ rest) :=
        hshown
      refine (afterUps_leaves hq next).mono ?_ id
      intro t ht
      refine hmid (h.goes (by simp [hpc]) ht.shown ?_ ht.response ht.mode
        (ht.loops hups.1 hups.2 h.both) ?_)
      all_goals rcases ht.pc with htop | ⟨u, hu⟩ <;> simp [*]
  · obtain ⟨hw, hout, hahead⟩ := hshown
    have hunder := h.underway
    unfold Underway at hunder
    rw [hpc] at hunder
    have hall : w.writer.log ++ w.buf = s.cltW.log ++ w.buf := by rw [hw]
    refine (WriteAllFlush.poll_ensures hall).await ?_ ?_
    · intro w' hw'
      refine hmid ⟨⟨rfl, by rw [← hout, ← hw']; rfl, hahead⟩, ?_, h.mode, h.both, by simp⟩
      cases next <;> exact hunder
    · intro _ w' hw'
      have hq : { s with cltW := w'.writer, pc := .sendClt w next }.Quits (s.cltW.log ++ w.buf)
          s.rspBehind := ⟨hw', rfl⟩
      have hafter := afterClt_underway (s := { s with cltW := w'.writer, pc := .sendClt w next })
        next (by cases next <;> exact hunder) h.mode h.both
      refine ((afterClt_shown hq next).and hafter).mono ?_ id
      rintro t ⟨ht, hne, hmode, hboth, hat⟩
      rw [hout, hahead] at ht
      have hnot : (∀ w rsp, t.pc ≠ .sendClt w (.continued rsp)) ∧ ∀ w next, t.pc ≠ .sendUps w next := by
        rcases hat with hat | hat | ⟨u, hat⟩ | ⟨u, hat⟩ <;> simp [hat]
      exact hmid ⟨ht, (underway_iff hnot.1).mpr hne, hmode, hboth,
        fun w next heq => absurd heq (hnot.2 w next)⟩

/-! ### Whole runs -/

variable {t : Relay cmdCap rspCap (Tapped χ) ω}

omit [TextFunctions] [AtoiRadix10] [AsyncWrite χ] [AsyncWrite ω] in
theorem Midway.enter (h : s.Midway out r rest) : s.enter.Midway out r rest := by
  have hshown := h.shown.enter
  unfold Relay.enter at hshown ⊢
  split
  case h_1 hpc | h_2 hpc =>
    simp only [hpc] at hshown
    exact h.goes (by simp [hpc]) hshown (fun _ _ => nofun) rfl rfl h.both nofun
  case h_3 => exact h

omit [TextFunctions] [AtoiRadix10] [AsyncWrite χ] [AsyncWrite ω] in
theorem InResponse.enter (h : s.InResponse whole rest) : s.enter.InResponse whole rest := by
  rcases h with ⟨out, r, hmid, hwhole⟩ | hs
  · exact .inl ⟨out, r, hmid.enter, hwhole⟩
  · exact .inr hs.enter

/-- Along a run a response stays in the middle until all of it is on its way. -/
theorem runs_inResponse (h : s.InResponse whole rest)
    (hr : (future cmdCap rspCap (Tapped χ) ω).Runs RspStepOk s t) : t.InResponse whole rest := by
  refine hr.inv (I := InResponse whole rest) h ?_
  rintro u v (⟨out, r, hmid, hwhole⟩ | hs) hok hm
  · exact hm.ensures InResponse.enter (hmid.step hok hwhole)
  · exact .inr (runs_shows hs (.single ⟨hok, hm⟩))

/-- In every run whose steps are fine the responses of the server are safe, in both relays and in
    IDLE. -/
theorem responseSafe_of_stepOk {P : Relay cmdCap rspCap (Tapped χ) ω → Prop}
    {s₀ : Relay cmdCap rspCap (Tapped χ) ω} (h₀ : s₀.pc = .top)
    (hr : (future cmdCap rspCap (Tapped χ) ω).Runs P s₀ s) (hs : s.RspStepOk) :
    s.ResponseSafe RspStepOk := by
  have hstart : s₀.Shows False s₀.cltW.log s₀.rspBehind := by
    refine Shown.shows ?_ False.elim
    simp only [Shown, h₀]
    exact ⟨rfl, rfl⟩
  obtain ⟨out, ahead, hv, -⟩ := runs_shows hstart hr
  rintro r rest ⟨hunread, hreads, ⟨d, hparse, hkind⟩, hat⟩ t u hm hru
  have hpc : s.pc = .rspLine r.first := by
    refine hat.resolve_right fun hdrop => ?_
    have hne : s.dropsRsp ≠ [] := by rw [hdrop]; exact r.isText_first.1.ne_nil
    exact (hs.drops hne).2 d (hdrop ▸ hparse)
  simp only [Shown, hpc] at hv
  suffices hstep : s.step.Keeps (InResponse (s.cltW.log ++ r.wire) rest) from
    (runs_inResponse (hm.ensures InResponse.enter hstep) hru).kept
  unfold Relay.step
  simp only [hpc]
  exact handleRspIn_first rfl hunread hv.2.2.1 hs hpc hreads hparse hkind

end

/-- A server that has sent `data`, all of it buffered. -/
def serverOf (mode : Mode) (data : Bytes) (h : data.length ≤ 64) :
    Relay 64 64 (Tapped Sink) (Tapped Sink) where
  fromStarttls := false
  rspRecvBuf := .ofData data h
  cltR := ⟨[], [], nil_fits⟩
  cltW := tap ⟨[]⟩
  upsR := ⟨[], [], nil_fits⟩
  upsW := tap ⟨[]⟩
  order := [.upstream, .upstream]
  mode := mode

/-- A response with one literal of three bytes. -/
def threeBytes (head : Bytes) (hline : IsText (head ++ ascii "\x7b3\x7d\r\n") (some 3)) :
    DataResponse where
  parts := [(head ++ ascii "\x7b3\x7d\r\n", ascii "abc")]
  last := ascii ")\r\n"
  opens := by
    intro part hpart
    obtain rfl := List.mem_singleton.mp hpart
    exact hline
  ends := by
    refine ⟨⟨ascii ")\r", by decide, rfl⟩, ascii ")", rfl, ?_⟩
    intro head ds sync hds heq
    have hlast := getLast?_literalText head ds sync
    rw [← heq] at hlast
    revert hlast
    decide

theorem isText_three {head : Bytes} (h : lf ∉ head) :
    IsText (head ++ ascii "\x7b3\x7d\r\n") (some 3) := by
  refine ⟨⟨head ++ ascii "\x7b3\x7d\r", ?_, by simp [ascii]; rfl⟩, head ++ ascii "\x7b3\x7d", ?_, ?_⟩
  · intro hmem
    rcases mem_append.mp hmem with hin | hin
    · exact h hin
    · exact absurd hin (by decide)
  · rw [append_assoc]
    rfl
  · exact ⟨head, ascii "3", true, rfl, by decide, all_eq_true.mp (by decide), rfl⟩

/-- The relay has found the first text of `r`, and nothing behind `r` has come in. -/
def found (r : DataResponse) (s : Relay 64 64 (Tapped Sink) (Tapped Sink)) : Bool :=
  s.pc = .rspLine r.first && s.rspUnread = r.wire && s.cmdPipeline.ongoingResponse.isNone

/-- A FETCH with a literal, authenticated. -/
theorem responseSafe_fetch : ∃ (s : Relay 64 64 (Tapped Sink) (Tapped Sink)) (r : DataResponse),
    r.parts.length = 1 ∧ s.Receives r [] ∧ s.ResponseSafe RspStepOk := by
  let r := threeBytes (ascii "* 1 FETCH (BODY[] ") (isText_three (by decide))
  have hrun : ((future 64 64 (Tapped Sink) (Tapped Sink)).afterWhile (fun _ => true) 3
      (serverOf .authenticated r.wire (by decide))).any (fun s =>
        s.found r && s.mode = .authenticated && s.readsBoth) = true := by decide +kernel
  obtain ⟨s, hs, htest⟩ := (Option.any_eq_true _ _).mp hrun
  simp only [found, Bool.and_eq_true, decide_eq_true_eq, Option.isNone_iff_eq_none] at htest
  obtain ⟨⟨⟨⟨hpc, hunread⟩, hnone⟩, hmode⟩, hboth⟩ := htest
  have hparse : parseLine r.first = .ok (.commandData ⟨.fetch, some 3⟩) := by decide +kernel
  have hreads : s.ReadsRsp := fun _ => .inr hnone
  have hok : s.RspStepOk := by
    refine ⟨fun _ _ _ => hnone, ?_, fun _ _ _ hnot => absurd hreads hnot, ?_, ?_⟩
    · intro line n d hline _ _ hd
      obtain rfl := RelayAt.rspLine.inj (hpc.symm.trans hline)
      obtain rfl := commandData.inj (Except.ok.inj (hparse.symm.trans hd))
      exact ⟨nofun, hmode, hboth⟩
    · intro h
      exact absurd (by simp only [dropsRsp, hpc]) h
    · intro line cmd hline
      rw [hpc] at hline
      cases hline
  refine ⟨s, r, rfl, ⟨?_, hreads, ⟨_, hparse, nofun, nofun⟩, .inl hpc⟩,
    responseSafe_of_stepOk rfl (Future.afterWhile_runs (fun _ _ => trivial) hs) hok⟩
  rw [hunread, append_nil]

/-- Before the client is authenticated, the text behind a literal is taken for a response. -/
theorem not_responseSafe_id : ∃ s₀ s : Relay 64 64 (Tapped Sink) (Tapped Sink), s₀.pc = .top ∧
    (future 64 64 (Tapped Sink) (Tapped Sink)).Runs (fun _ => True) s₀ s ∧
    ¬ s.ResponseSafe fun _ => True := by
  let r := threeBytes (ascii "* ID (\"name\" ") (isText_three (by decide))
  have hrun : ((future 64 64 (Tapped Sink) (Tapped Sink)).afterWhile (fun _ => true) 3
      (serverOf .notAuthenticated r.wire (by decide))).any (fun s => s.found r &&
        ((future 64 64 (Tapped Sink) (Tapped Sink)).afterWhile (fun _ => true) 9 s).any fun u =>
          u.pc = .rspLine (ascii ")\r\n") && u.mode = .notAuthenticated &&
            u.rspUnread.length == 3) = true := by decide +kernel
  obtain ⟨s, hs, htest⟩ := (Option.any_eq_true _ _).mp hrun
  rw [Bool.and_eq_true] at htest
  obtain ⟨hfound, hlater⟩ := htest
  obtain ⟨u, hu, hat⟩ := (Option.any_eq_true _ _).mp hlater
  simp only [found, Bool.and_eq_true, decide_eq_true_eq, Option.isNone_iff_eq_none] at hfound
  simp only [Bool.and_eq_true, decide_eq_true_eq, beq_iff_eq] at hat
  obtain ⟨⟨hpc, hunread⟩, hnone⟩ := hfound
  obtain ⟨⟨hpcu, hmode⟩, hlen⟩ := hat
  refine ⟨_, s, rfl, Future.afterWhile_runs (fun _ _ => trivial) hs, ?_⟩
  intro hsafe
  have hparse : parseLine r.first = .ok (.commandData ⟨.id, some 3⟩) := by decide +kernel
  have hreceives : s.Receives r [] :=
    ⟨by rw [hunread, append_nil], fun _ => .inr hnone, ⟨_, hparse, nofun, nofun⟩, .inl hpc⟩
  obtain ⟨t, hm, hru⟩ := (Future.afterWhile_runs (P := fun _ => True) (fun _ _ => trivial)
    hu).cases_head
    |>.resolve_left fun h => by
      rw [← h, hpc] at hpcu
      exact absurd (RelayAt.rspLine.inj hpcu) (by decide)
  have hle := (hsafe r [] hreceives t u hm.2 hru).notParsed _ hpcu fun _ => .inl hmode
  rw [hlen] at hle
  exact absurd hle (by decide)

end Relay

end Vey.Imap
