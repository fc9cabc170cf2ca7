import Vey.Smtp.Initiation

/-! What the client gets for a reply to EHLO.

    A reply is complete when its last line, and no other, says that it ends. The lines that
    `recv_relay_check_rsp` sends on are some of those of the server, so they form a complete reply
    exactly when the last line of the server is among them. -/

namespace Vey.Smtp
open Schemes Vey.Types IoExt Serve List LineRecvBuf ResponseParser

/-! ### Replies -/

/-- The line has the code and says that another one follows. -/
def Continues (code : ReplyCode) (line : Bytes) : Prop :=
  ∃ text, line = code.text ++ 45 :: text ++ [cr, lf]

/-- The line has the code and ends the reply. -/
def Final (code : ReplyCode) (line : Bytes) : Prop :=
  line = code.text ++ [cr, lf] ∨ ∃ text, line = code.text ++ 32 :: text ++ [cr, lf]

/-- One complete reply. -/
def IsReply (lines : List Bytes) : Prop :=
  ∃ code init last, lines = init ++ [last] ∧ (∀ l ∈ lines, IsLine l) ∧
    (∀ l ∈ init, Continues code l) ∧ Final code last

variable {line : Bytes}

theorem Continues.not_final {code code' : ReplyCode} (h : Continues code line) :
    ¬ Final code' line := by
  obtain ⟨text, rfl⟩ := h
  rintro (h | ⟨text', h⟩)
  · simp [ReplyCode.text, cr] at h
  · simp [ReplyCode.text] at h

variable {p : ResponseParser} {seen : List Bytes}

namespace ResponseParser

/-- Feed the lines of a reply. -/
def feedLines (p : ResponseParser) (lines : List Bytes) : Except ResponseLineError ResponseParser :=
  lines.foldlM feedLine p

/-- The lines make up a complete reply for the parser. -/
def Accepts (p : ResponseParser) (lines : List Bytes) : Prop :=
  ∃ p', feedLines p lines = .ok p' ∧ p'.finished = true

/-- The parser in the middle of a reply, or before it. -/
def Reading (seen : List Bytes) (p : ResponseParser) : Prop :=
  (seen = [] ∧ p = {}) ∨ (p.code.isSet = true ∧ p.multiline = true ∧ p.lineCount = seen.length ∧
    ∀ l ∈ seen, Continues p.code l)

theorem Reading.not_finished (h : Reading seen p) : p.finished = false := by
  rcases h with ⟨-, rfl⟩ | ⟨-, hmulti, -⟩
  · rfl
  · simp [finished, hmulti]

theorem codeOf_ok {code : ReplyCode} (h : codeOf line = .ok code) :
    code.isSet = true ∧ line = code.text ++ line.drop 3 := by
  unfold codeOf at h
  split at h
  case h_2 => cases h
  case h_1 a b c rest =>
    split at h
    case h_2 => cases h
    case h_1 code' hnew =>
      obtain rfl := Except.ok.inj h
      unfold ReplyCode.new at hnew
      split at hnew
      case isFalse => cases hnew
      case isTrue hab =>
        obtain rfl := Option.some.inj hnew
        refine ⟨?_, rfl⟩
        have hne : a ≠ 0 := by
          rintro rfl
          exact absurd hab.1 (by decide)
        simpa [ReplyCode.isSet] using hne

/-- A line with the code of the parser: it goes on or ends. -/
theorem feedDelimiter_ok {p p' : ResponseParser} {left : Bytes} {n : Nat}
    (hleft : left = p.code.text ++ left.drop 3) (h : p.feedDelimiter left n = .ok p') :
    p'.code = p.code ∧
      ((Continues p.code (left ++ [cr, lf]) ∧ p'.multiline = true ∧ p'.lineCount = n) ∨
        (Final p.code (left ++ [cr, lf]) ∧ p'.multiline = false ∧
          p'.lineCount = if left.length = 3 then p.lineCount else n)) := by
  have hlen : left.length = 3 ↔ left.drop 3 = [] := by
    have hl := congrArg length hleft
    simp only [length_append, ReplyCode.text, length_cons, length_nil,
      length_drop] at hl
    rw [drop_eq_nil_iff]
    omega
  unfold feedDelimiter at h
  split at h
  case h_1 hnil =>
    obtain rfl := Except.ok.inj h
    refine ⟨rfl, .inr ⟨.inl ?_, rfl, ?_⟩⟩
    · rw [hleft, hnil, append_nil]
    · rw [if_pos (hlen.mpr hnil)]
  case h_2 d text hcons =>
    have hne : ¬ left.length = 3 := by
      rw [hlen, hcons]
      exact cons_ne_nil _ _
    split at h
    case isTrue hd =>
      obtain rfl := Except.ok.inj h
      refine ⟨rfl, .inr ⟨.inr ⟨text, ?_⟩, rfl, ?_⟩⟩
      · rw [hleft, hcons, hd]
      · rw [if_neg hne]
    case isFalse =>
      split at h
      case isTrue hd =>
        obtain rfl := Except.ok.inj h
        refine ⟨rfl, .inl ⟨⟨text, ?_⟩, rfl, rfl⟩⟩
        rw [hleft, hcons, hd]
      case isFalse => cases h

/-- What the parser makes of a further line. -/
theorem Reading.feedLine {p p' : ResponseParser}
    (hp : Reading seen p) (h : p.feedLine line = .ok p') :
    Reading (seen ++ [line]) p' ∨
      (p'.finished = true ∧ (∀ l ∈ seen, Continues p'.code l) ∧ Final p'.code line ∧
        p'.lineCount = if line.length = 5 then seen.length else seen.length + 1) := by
  unfold ResponseParser.feedLine at h
  split at h
  case h_1 => cases h
  case h_2 left hleft =>
    obtain rfl : line = left ++ [cr, lf] := by
      unfold stripSuffix at hleft
      split at hleft
      case isTrue hsuf =>
        obtain rfl := Option.some.inj hleft
        obtain ⟨a, rfl⟩ := hsuf
        simp
      case isFalse => cases hleft
    have hlen : (left ++ [cr, lf]).length = 5 ↔ left.length = 3 := by
      simp only [length_append, length_cons, length_nil]
      omega
    -- the parser that is fed: the code is set, and what was seen has it
    have hfed : ∀ q : ResponseParser, q.code.isSet = true → q.lineCount = seen.length →
        (∀ l ∈ seen, Continues q.code l) → left = q.code.text ++ left.drop 3 →
        q.feedDelimiter left (seen.length + 1) = .ok p' →
        Reading (seen ++ [left ++ [cr, lf]]) p' ∨
          (p'.finished = true ∧ (∀ l ∈ seen, Continues p'.code l) ∧ Final p'.code (left ++ [cr, lf]) ∧
            p'.lineCount = if (left ++ [cr, lf]).length = 5 then seen.length else seen.length + 1) := by
      intro q hset hcount hseen hq hd
      obtain ⟨hcode, ⟨hcont, hmulti, hn⟩ | ⟨hfinal, hmulti, hn⟩⟩ := feedDelimiter_ok hq hd
      · refine .inl (.inr ⟨hcode ▸ hset, hmulti, by simp [hn], ?_⟩)
        intro l hl
        rw [hcode]
        rcases mem_append.mp hl with hl | hl
        · exact hseen l hl
        · rw [mem_singleton.mp hl]
          exact hcont
      · refine .inr ⟨by simp [finished, hcode, hset, hmulti], hcode ▸ hseen, hcode ▸ hfinal, ?_⟩
        rw [hn, hcount]
        simp only [hlen]
    rcases hp with ⟨rfl, rfl⟩ | ⟨hset, hmulti, hcount, hseen⟩
    · rw [if_neg (by decide)] at h
      obtain ⟨code, hc, h⟩ := bind_ok h
      obtain ⟨hset, hcut⟩ := codeOf_ok hc
      exact hfed ⟨code, false, 0⟩ hset rfl (by simp) hcut h
    · rw [if_pos hset, if_pos hmulti] at h
      obtain ⟨code, hc, h⟩ := bind_ok h
      split at h
      case isFalse => cases h
      case isTrue heq =>
        subst heq
        rw [hcount] at h
        exact hfed p hset hcount hseen (codeOf_ok hc).2 h

/-- What is still to come is not empty. -/
theorem Reading.accepts_cons {seen todo : List Bytes} (hp : Reading seen p)
    (h : p.Accepts todo) : ∃ l todo' p', todo = l :: todo' ∧ p.feedLine l = .ok p' ∧
    p'.Accepts todo' := by
  obtain ⟨q, hq, hfin⟩ := h
  cases todo with
  | nil =>
    obtain rfl := Except.ok.inj hq
    rw [hp.not_finished] at hfin
    cases hfin
  | cons l todo' =>
    rw [feedLines, foldlM_cons] at hq
    obtain ⟨p', hl, hq⟩ := bind_ok hq
    exact ⟨l, todo', p', rfl, hl, q, hq, hfin⟩

/-- A finished reply takes no further line. -/
theorem accepts_of_finished {todo : List Bytes} (hfin : p.finished = true)
    (h : p.Accepts todo) : todo = [] := by
  obtain ⟨q, hq, -⟩ := h
  cases todo with
  | nil => rfl
  | cons l todo' =>
    simp only [finished, Bool.and_eq_true, Bool.not_eq_true'] at hfin
    rw [feedLines, foldlM_cons] at hq
    obtain ⟨p', hl, -⟩ := bind_ok hq
    unfold feedLine at hl
    split at hl
    · cases hl
    · rw [if_pos hfin.1, if_neg (by simp [hfin.2])] at hl
      cases hl

end ResponseParser

/-! ### The last line -/

/-- The last line of a reply is sent on: the code is not 250, it is the first line, or the extension
    is allowed. A bare code is not counted as a line: alone it is not the first one, and behind the
    first one it still is. -/
def LastShown [TextFunctions] (config : SmtpInterceptionConfig) (fromStarttls : Bool)
    (lines : List Bytes) : Prop :=
  ∃ init last, lines = init ++ [last] ∧ (¬ ascii "250" <+: last ∨
    (if last = ascii "250\r\n" then init.length = 1 else init = []) ∨
    (Extension.ofMessage (ResponseParser.message last)).allowed config fromStarttls = true)

theorem lastShown_append [TextFunctions] {config : SmtpInterceptionConfig} {fromStarttls : Bool}
    {init : List Bytes} {last : Bytes} :
    LastShown config fromStarttls (init ++ [last]) ↔ (¬ ascii "250" <+: last ∨
      (if last = ascii "250\r\n" then init.length = 1 else init = []) ∨
      (Extension.ofMessage (message last)).allowed config fromStarttls = true) := by
  constructor
  · rintro ⟨init', last', heq, h⟩
    obtain ⟨rfl, hlast⟩ := append_inj' heq rfl
    obtain rfl := (cons.inj hlast).1
    exact h
  · intro h
    exact ⟨init, last, rfl, h⟩

/-- The code of a line that ends a reply. -/
theorem Final.code_iff {code : ReplyCode} (h : Final code line) :
    code = .ok ↔ ascii "250" <+: line := by
  have hpre : code.text <+: line := by
    rcases h with rfl | ⟨text, rfl⟩
    · exact prefix_append _ _
    · rw [append_assoc]
      exact prefix_append _ _
  constructor
  · rintro rfl
    exact hpre
  · intro h250
    have heq : code.text = [50, 53, 48] := by
      refine IsPrefix.eq_of_length ?_ rfl
      exact prefix_of_prefix_length_le hpre h250 (Nat.le_refl _)
    obtain ⟨a, b, c⟩ := code
    simp only [ReplyCode.text, cons.injEq, and_true] at heq
    obtain ⟨rfl, rfl, rfl⟩ := heq
    rfl

theorem Final.bare_iff (h : Final .ok line) : line.length = 5 ↔ line = ascii "250\r\n" := by
  constructor
  · intro hlen
    rcases h with rfl | ⟨text, rfl⟩
    · rfl
    · simp [ReplyCode.text] at hlen
  · rintro rfl
    rfl

namespace Initiation

variable {χ : Type} [TextFunctions]

/-- The line is sent on. -/
def Shown (s : Initiation χ) (line : Bytes) : Prop :=
  s.rsp.code = .ok → s.rsp.isFirstLine = true ∨
    (Extension.ofMessage (ResponseParser.message line)).allowed s.config s.fromStarttls = true

/-- The line that ends a reply is sent on if `LastShown` says so. -/
theorem shown_iff_lastShown {s : Initiation χ} (hfinal : Final s.rsp.code line)
    (hcount : s.rsp.lineCount = if line.length = 5 then seen.length else seen.length + 1) :
    s.Shown line ↔ LastShown s.config s.fromStarttls (seen ++ [line]) := by
  rw [lastShown_append, ← hfinal.code_iff]
  unfold Shown
  by_cases hcode : s.rsp.code = .ok
  · rw [hcode] at hfinal
    have hfirst : s.rsp.isFirstLine = true ↔
        (if line = ascii "250\r\n" then seen.length = 1 else seen = []) := by
      rw [isFirstLine, beq_iff_eq, hcount]
      simp only [hfinal.bare_iff]
      split
      · rfl
      · rw [Nat.add_eq_right, length_eq_zero_iff]
    simp only [hcode, forall_const, not_true_eq_false, false_or]
    rw [hfirst]
  · simp only [hcode, false_implies, not_false_eq_true, true_or]

/-- What a line leads to. -/
theorem handleLine_eq (s : Initiation χ) (line : Bytes) : ∃ ext,
    (s.Shown line ∧ s.handleLine line = { s with serverExt := ext }.writeLine line) ∨
      (¬ s.Shown line ∧ s.handleLine line = { s with serverExt := ext }.lineDone) := by
  unfold handleLine Shown
  split
  case isFalse hcode => exact ⟨s.serverExt, .inl ⟨fun h => absurd h hcode, rfl⟩⟩
  case isTrue hcode =>
    split
    case isTrue hfirst => exact ⟨s.serverExt, .inl ⟨fun _ => .inl hfirst, rfl⟩⟩
    case isFalse hfirst =>
      refine ⟨(Extension.ofMessage (message line)).note s.serverExt, ?_⟩
      split
      case h_1 s' heq =>
        obtain ⟨hallow, rfl⟩ := Prod.mk.inj heq
        exact .inl ⟨fun _ => .inr hallow, rfl⟩
      case h_2 s' heq =>
        obtain ⟨hallow, rfl⟩ := Prod.mk.inj heq
        refine .inr ⟨fun h => ?_, rfl⟩
        rcases h hcode with h | h
        · exact hfirst h
        · rw [hallow] at h; cases h

/-! ### The run -/

/-- The whole reply is through and `kept` of it was sent on. -/
def Ended (config : SmtpInterceptionConfig) (fromStarttls : Bool) (lines kept : List Bytes) : Prop :=
  ∃ code init last, lines = init ++ [last] ∧ (∀ l ∈ init, Continues code l) ∧ Final code last ∧
    ((LastShown config fromStarttls lines ∧ ∃ front, front.Sublist init ∧ kept = front ++ [last]) ∨
      (¬ LastShown config fromStarttls lines ∧ kept.Sublist init))

/-- Behind a line: `kept` was sent on of what was read, `todo` is still to come. -/
def Between (lines todo kept : List Bytes) (s : Initiation χ) : Prop :=
  (∃ seen, lines = seen ++ todo ∧ s.rsp.Reading seen ∧ s.rsp.Accepts todo ∧ kept.Sublist seen) ∨
    (todo = [] ∧ s.rsp.finished = true ∧ Ended s.config s.fromStarttls lines kept)

/-- The law of the loop. -/
structure Inv (config : SmtpInterceptionConfig) (fromStarttls : Bool) (log : Bytes)
    (lines : List Bytes) (rest : Bytes) (s : Initiation (Tapped χ)) : Prop where
  config_eq : s.config = config
  starttls_eq : s.fromStarttls = fromStarttls
  at_pc : ∃ todo kept, s.Between lines todo kept ∧ match s.pc with
    | .top => s.rsp.finished = false ∧ s.cltW.log = log ++ kept.flatten ∧
        LineRecvBuf.pendingOf (s.rspRecvBuf.consumeLine, s.upsR) = todo.flatten ++ rest
    | .recvLine => s.rsp.finished = false ∧ s.cltW.log = log ++ kept.flatten ∧
        LineRecvBuf.pendingOf (s.rspRecvBuf, s.upsR) = todo.flatten ++ rest
    | .writeLine w => w.writer.log ++ w.buf = log ++ kept.flatten ∧
        LineRecvBuf.pendingOf (s.rspRecvBuf.consumeLine, s.upsR) = todo.flatten ++ rest
    | .flush => s.rsp.finished = true ∧ s.cltW.log = log ++ kept.flatten

variable {config : SmtpInterceptionConfig} {fromStarttls : Bool} {log rest : Bytes}
  {lines todo kept : List Bytes} {s t : Initiation (Tapped χ)}

/-- Behind a line the loop goes on or is through. -/
theorem lineDone_inv (hconfig : s.config = config) (hstarttls : s.fromStarttls = fromStarttls)
    (hb : s.Between lines todo kept) (hlog : s.cltW.log = log ++ kept.flatten)
    (hpend : pendingOf (s.rspRecvBuf.consumeLine, s.upsR) = todo.flatten ++ rest) :
    s.lineDone.Keeps (Inv config fromStarttls log lines rest) := by
  unfold lineDone
  split
  case isTrue hfin => exact ⟨hconfig, hstarttls, todo, kept, hb, hfin, hlog⟩
  case isFalse hfin =>
    exact ⟨hconfig, hstarttls, todo, kept, hb, by simpa using hfin, hlog, hpend⟩

/-- The next line of the reply. -/
theorem handleLine_inv (hconfig : s.config = config) (hstarttls : s.fromStarttls = fromStarttls)
    (hlines : lines = seen ++ line :: todo) (hreading : p.Reading seen)
    (hfeed : p.feedLine line = .ok s.rsp) (hacc : s.rsp.Accepts todo) (hkept : kept.Sublist seen)
    (hlog : s.cltW.log = log ++ kept.flatten)
    (hpend : pendingOf (s.rspRecvBuf.consumeLine, s.upsR) = todo.flatten ++ rest) :
    (s.handleLine line).Keeps (Inv config fromStarttls log lines rest) := by
  have hbetween {kept' : List Bytes} (hsub : kept'.Sublist (seen ++ [line]))
      (hend : (s.Shown line ∧ ∃ front, front.Sublist seen ∧ kept' = front ++ [line]) ∨
        (¬ s.Shown line ∧ kept'.Sublist seen)) : s.Between lines todo kept' := by
    rcases hreading.feedLine hfeed with hmore | ⟨hfin, hseen, hfinal, hcount⟩
    · exact .inl ⟨seen ++ [line], by simp [hlines], hmore, hacc, hsub⟩
    · obtain rfl := accepts_of_finished hfin hacc
      rw [shown_iff_lastShown hfinal hcount, ← hlines] at hend
      exact .inr ⟨rfl, hfin, s.rsp.code, seen, line, hlines, hseen, hfinal, hend⟩
  obtain ⟨ext, ⟨hs, heq⟩ | ⟨hs, heq⟩⟩ := handleLine_eq s line
  · rw [heq]
    refine ⟨hconfig, hstarttls, todo, kept ++ [line],
      hbetween (hkept.append (Sublist.refl _)) (.inl ⟨hs, kept, hkept, rfl⟩), ?_, hpend⟩
    rw [hlog]
    simp
  · rw [heq]
    have hb : { s with serverExt := ext }.Between lines todo kept :=
      hbetween (hkept.trans (sublist_append_left _ _)) (.inr ⟨hs, hkept⟩)
    exact lineDone_inv hconfig hstarttls hb hlog hpend

variable [AsyncWrite χ]

/-- One step keeps the law. -/
theorem step_inv (hlines : ∀ l ∈ lines, IsLine l) (h : s.Inv config fromStarttls log lines rest) :
    s.step.Keeps (Inv config fromStarttls log lines rest) := by
  obtain ⟨hconfig, hstarttls, todo, kept, hb, hat⟩ := h
  unfold step
  cases hpc : s.pc with
  | top =>
    simp only [hpc] at hat ⊢
    exact ⟨hconfig, hstarttls, todo, kept, hb, hat⟩
  | recvLine =>
    simp only [hpc] at hat ⊢
    obtain ⟨hfin, hlog, hpend⟩ := hat
    refine (readLine_ensures hpend).await ?_ ?_
    · intro p hp
      exact ⟨hconfig, hstarttls, todo, kept, hb, hfin, hlog, hp⟩
    · rintro line p ⟨hp, hline, hcur, hle⟩
      rcases hb with ⟨seen, hseen, hreading, hacc, hkept⟩ | ⟨-, hfin', -⟩
      · obtain ⟨l, todo', q, rfl, hfeed, hacc'⟩ := hreading.accepts_cons hacc
        obtain rfl : line = l := by
          refine hline.eq_of_prefixes (hlines l ?_) hle ?_
          · rw [hseen]; simp
          · rw [flatten_cons, append_assoc]
            exact prefix_append _ _
        rw [hfeed]
        refine handleLine_inv hconfig hstarttls hseen hreading hfeed hacc' hkept hlog ?_
        rw [pendingOf_consumeLine, ← hcur]
        have hp' : pendingOf (p.1, p.2) = line ++ (todo'.flatten ++ rest) := by
          rw [← append_assoc]
          exact hp
        rw [hp', drop_left]
      · rw [hfin] at hfin'; cases hfin'
  | writeLine w =>
    simp only [hpc] at hat ⊢
    obtain ⟨hw, hpend⟩ := hat
    refine (WriteAll.poll_ensures hw).await ?_ ?_
    · intro w' hw'
      exact ⟨hconfig, hstarttls, todo, kept, hb, hw', hpend⟩
    · intro _ w' hw'
      have hb' : { s with cltW := w'.writer, pc := .writeLine w }.Between lines todo kept := hb
      exact lineDone_inv hconfig hstarttls hb' hw' hpend
  | flush =>
    simp only [hpc] at hat ⊢
    obtain ⟨hfin, hlog⟩ := hat
    have hdone : ∀ w : Tapped χ, { s with cltW := w, pc := .flush }.finish.Keeps
        (Inv config fromStarttls log lines rest) := by
      intro w
      unfold finish
      split
      · exact trivial
      · split <;> exact trivial
    split
    case h_1 w hw =>
      exact ⟨hconfig, hstarttls, todo, kept, hb, hfin, (tapped_pollFlush hw).trans hlog⟩
    case h_2 =>
      split
      · exact hdone _
      · exact trivial
    case h_3 => exact hdone _

/-- The reply is through: the results that are no failure of a stream or of the parser. -/
def Through (r : Except ServerTaskError (Option Unit)) : Prop :=
  r = .error .upstreamAppUnavailable ∨ ∃ o, r = .ok o

variable {r : Except ServerTaskError (Option Unit)}

/-- Only behind the flush the reply is through. -/
theorem step_through
    (h : s.step = .ret (.ready r) t) (hr : Through r) : s.pc = .flush ∧ t.cltW.log = s.cltW.log := by
  have hline : ∀ (u : Initiation (Tapped χ)), u.lineDone ≠ .ret (.ready r) t := by
    intro u hu
    unfold lineDone at hu
    split at hu <;> cases hu
  unfold step at h
  cases hpc : s.pc with
  | top => simp only [hpc] at h; cases h
  | recvLine =>
    simp only [hpc] at h
    exfalso
    rcases hread : readLine (s.rspRecvBuf, s.upsR) with p | ⟨_ | e | line, p⟩
    · rw [hread] at h; cases h
    · rw [hread] at h; cases h
    · rw [hread] at h
      cases h
      cases e <;> exact hr.elim nofun nofun
    · rw [hread] at h
      simp only [Ctrl.await] at h
      split at h
      case h_1 q _ =>
        obtain ⟨ext, ⟨-, heq⟩ | ⟨-, heq⟩⟩ := handleLine_eq
          { s with rspRecvBuf := p.1, upsR := p.2, rsp := q, pc := .recvLine } line
        · rw [heq] at h; cases h
        · rw [heq] at h
          exact hline _ h
      case h_2 =>
        cases h
        exact hr.elim nofun nofun
  | writeLine w =>
    simp only [hpc] at h
    exfalso
    rcases hw : w.poll with w' | ⟨_ | e | _, w'⟩
    · rw [hw] at h; cases h
    · rw [hw] at h; cases h
    · rw [hw] at h
      cases h
      exact hr.elim nofun nofun
    · rw [hw] at h
      exact hline _ h
  | flush =>
    simp only [hpc] at h
    refine ⟨rfl, ?_⟩
    have hfinish : ∀ w, { s with cltW := w, pc := .flush }.finish = .ret (.ready r) t → t.cltW = w := by
      intro w hw
      unfold finish at hw
      split at hw
      · rw [← (Ctrl.ret.inj hw).2]
      · split at hw <;> rw [← (Ctrl.ret.inj hw).2]
    split at h
    case h_1 => cases h
    case h_2 e w hw =>
      split at h
      · rw [hfinish w h, tapped_pollFlush hw]
      · cases h
        exact hr.elim nofun nofun
    case h_3 w hw => rw [hfinish w h, tapped_pollFlush hw]

/-- The lines that were sent on form a reply if the last one is among them. -/
theorem Ended.isReply_iff (hlines : ∀ l ∈ lines, IsLine l) (h : Ended config fromStarttls lines kept) :
    (∃ sent, sent.flatten = kept.flatten ∧ IsReply sent) ↔ LastShown config fromStarttls lines := by
  obtain ⟨code, init, last, rfl, hinit, hfinal, ⟨hshown, front, hfront, rfl⟩ | ⟨hnot, hkept⟩⟩ := h
  · refine iff_of_true ⟨front ++ [last], rfl, code, front, last, rfl, ?_, ?_, hfinal⟩ hshown
    · intro l hl
      exact hlines l ((hfront.append (Sublist.refl _)).subset hl)
    · intro l hl
      exact hinit l (hfront.subset hl)
  · refine iff_of_false ?_ hnot
    rintro ⟨sent, heq, code', init', last', rfl, hsent, -, hfinal'⟩
    -- lines are found again in the text they make up
    have hkeptLines : ∀ l ∈ kept, IsLine l := fun l hl =>
      hlines l (mem_append_left _ (hkept.subset hl))
    have hcut : init' ++ [last'] = kept := by
      have h1 := splitLines_flatten [] hsent
      have h2 := splitLines_flatten [] hkeptLines
      rw [heq, h2] at h1
      simpa [splitLines] using (congrArg Prod.fst h1).symm
    have hmem : last' ∈ init := hkept.subset (hcut ▸ by simp)
    exact (hinit last' hmem).not_final hfinal'

/-- A run that is through has sent some of the lines, the last one if it is shown. -/
theorem completes_ended (hpc : s.pc = .top) (hrsp : s.rsp = {}) (hlines : ∀ l ∈ lines, IsLine l)
    (hacc : Accepts {} lines)
    (hin : pendingOf (s.rspRecvBuf.consumeLine, s.upsR) = lines.flatten ++ rest)
    (hc : (recvRelayCheckRsp (Tapped χ)).Completes s r t) (hr : Through r) :
    ∃ kept, t.cltW.log = s.cltW.log ++ kept.flatten ∧
      Ended s.config s.fromStarttls lines kept := by
  obtain ⟨u, hv, hu⟩ := hc
  have hstart : s.Inv s.config s.fromStarttls s.cltW.log lines rest := by
    refine ⟨rfl, rfl, lines, [], .inl ⟨[], rfl, ?_, hrsp ▸ hacc, Sublist.refl _⟩, ?_⟩
    · exact .inl ⟨rfl, hrsp⟩
    · simp only [hpc]
      exact ⟨by rw [hrsp]; rfl, by simp, hin⟩
  obtain ⟨hconfig, hstarttls, todo, kept, hb, hat⟩ :=
    Future.Visits.ensures (F := recvRelayCheckRsp (Tapped χ)) id (step_inv hlines) hstart hv
  obtain ⟨hflush, hlog⟩ := step_through hu hr
  simp only [hflush] at hat
  refine ⟨kept, hlog.trans hat.2, ?_⟩
  rcases hb with ⟨seen, -, hreading, -⟩ | ⟨-, -, hended⟩
  · rw [hreading.not_finished] at hat
    cases hat.1
  · rwa [hconfig, hstarttls] at hended

/-- The client gets a complete reply exactly when the last line of the server's reply is sent on. -/
theorem isReply_iff_lastShown {r : Except ServerTaskError (Option Unit)} (hpc : s.pc = .top)
    (hrsp : s.rsp = {}) (hlines : ∀ l ∈ lines, IsLine l) (hacc : ResponseParser.Accepts {} lines)
    (hin : LineRecvBuf.pendingOf (s.rspRecvBuf.consumeLine, s.upsR) = lines.flatten ++ rest)
    (hc : (recvRelayCheckRsp (Tapped χ)).Completes s r t) (hr : Through r) :
    (∃ sent, t.cltW.log = s.cltW.log ++ sent.flatten ∧ IsReply sent) ↔
      LastShown s.config s.fromStarttls lines := by
  obtain ⟨kept, hlog, hended⟩ := completes_ended hpc hrsp hlines hacc hin hc hr
  rw [← hended.isReply_iff hlines, hlog]
  simp only [append_right_inj, eq_comm]

end Initiation

/-! ### Two replies -/

namespace Initiation

/-- A server whose reply has come in at once. -/
def replyOf (lines : List Bytes) (h : lines.flatten.length ≤ responseMaxLineSize) :
    Initiation (Tapped Sink) where
  config := ⟨false, false, false⟩
  fromStarttls := false
  rspRecvBuf := .ofData lines.flatten h
  upsR := ⟨[], [], nil_fits⟩
  cltW := tap ⟨[]⟩

/-- HELP is sent on as the last line. -/
theorem isReply_help : ∃ (s t : Initiation (Tapped Sink)) (r : Except ServerTaskError (Option Unit)),
    (recvRelayCheckRsp (Tapped Sink)).Completes s r t ∧ Through r ∧
      ∃ sent, t.cltW.log = s.cltW.log ++ sent.flatten ∧ IsReply sent := by
  let lines := [ascii "250-mail\r\n", ascii "250-XA\r\n", ascii "250 HELP\r\n"]
  let s := replyOf lines (by decide)
  have hrun : ((recvRelayCheckRsp (Tapped Sink)).drive 20 s).any
      (fun x => decide (x.1 = .ok (some ()))) = true := by decide +kernel
  obtain ⟨⟨r, t⟩, hx, hr⟩ := (Option.any_eq_true _ _).mp hrun
  obtain rfl : r = .ok (some ()) := of_decide_eq_true hr
  have hc := Future.drive_completes (s := s) .start hx
  have hlines : ∀ l ∈ lines, IsLine l := by
    intro l hl
    simp only [lines, mem_cons, not_mem_nil, or_false] at hl
    rcases hl with rfl | rfl | rfl
    · exact ⟨ascii "250-mail\r", by decide, rfl⟩
    · exact ⟨ascii "250-XA\r", by decide, rfl⟩
    · exact ⟨ascii "250 HELP\r", by decide, rfl⟩
  have hshown : LastShown s.config s.fromStarttls lines :=
    ⟨[ascii "250-mail\r\n", ascii "250-XA\r\n"], ascii "250 HELP\r\n", rfl,
      .inr (.inr (by decide +kernel))⟩
  have hin : pendingOf (s.rspRecvBuf.consumeLine, s.upsR) = lines.flatten ++ [] := by
    decide +kernel
  exact ⟨s, t, _, hc, .inr ⟨_, rfl⟩, (isReply_iff_lastShown rfl rfl hlines ⟨_, rfl, rfl⟩ hin hc
    (.inr ⟨_, rfl⟩)).mpr hshown⟩

/-- ENHANCEDSTATUSCODES is not, and the client waits for a last line. -/
theorem not_isReply_enhancedStatusCodes :
    ∃ (s t : Initiation (Tapped Sink)) (lines : List Bytes), s.pc = .top ∧ s.rsp = {} ∧
      (∀ l ∈ lines, IsLine l) ∧ ResponseParser.Accepts {} lines ∧
      LineRecvBuf.pendingOf (s.rspRecvBuf.consumeLine, s.upsR) = lines.flatten ∧
      (recvRelayCheckRsp (Tapped Sink)).Completes s (.ok (some ())) t ∧
      t.cltW.log = ascii "250-mail\r\n" ∧
      ¬ ∃ sent, t.cltW.log = s.cltW.log ++ sent.flatten ∧ IsReply sent := by
  let lines := [ascii "250-mail\r\n", ascii "250 ENHANCEDSTATUSCODES\r\n"]
  let s := replyOf lines (by decide)
  have hrun : ((recvRelayCheckRsp (Tapped Sink)).drive 20 s).any
      (fun x => decide (x.1 = .ok (some ()) ∧ x.2.cltW.log = ascii "250-mail\r\n")) = true := by
    decide +kernel
  obtain ⟨⟨r, t⟩, hx, hr⟩ := (Option.any_eq_true _ _).mp hrun
  obtain ⟨rfl, hlog⟩ : r = .ok (some ()) ∧ t.cltW.log = ascii "250-mail\r\n" := of_decide_eq_true hr
  have hc := Future.drive_completes (s := s) .start hx
  have hlines : ∀ l ∈ lines, IsLine l := by
    intro l hl
    simp only [lines, mem_cons, not_mem_nil, or_false] at hl
    rcases hl with rfl | rfl
    · exact ⟨ascii "250-mail\r", by decide, rfl⟩
    · exact ⟨ascii "250 ENHANCEDSTATUSCODES\r", by decide, rfl⟩
  have hacc : Accepts {} lines := ⟨_, rfl, rfl⟩
  have hin : pendingOf (s.rspRecvBuf.consumeLine, s.upsR) = lines.flatten := by
    decide +kernel
  refine ⟨s, t, lines, rfl, rfl, hlines, hacc, hin, hc, hlog, ?_⟩
  rintro ⟨sent, hsent, hreply⟩
  have hin' : pendingOf (s.rspRecvBuf.consumeLine, s.upsR) = lines.flatten ++ [] := by
    rw [hin, append_nil]
  obtain ⟨kept, hkept, hended⟩ := completes_ended rfl rfl hlines hacc hin' hc (.inr ⟨_, rfl⟩)
  have hshown : LastShown s.config s.fromStarttls lines := (hended.isReply_iff hlines).mp
    ⟨sent, append_cancel_left (hsent.symm.trans hkept), hreply⟩
  have hlast : LastShown s.config s.fromStarttls
      ([ascii "250-mail\r\n"] ++ [ascii "250 ENHANCEDSTATUSCODES\r\n"]) := hshown
  have hnot := lastShown_append.mp hlast
  revert hnot
  decide +kernel

end Initiation

end Vey.Smtp
