import Vey.Schemes.Lines
import Vey.Schemes.Loop

/-! Reading a message line by line, with a limit on its size.

    A loop asks its reader for the next line and hands each complete line on; a line may go on
    over many polls. The limit holds for all lines together:

        taken | part | still in the reader
        ------+------+--------------------
         lines         input

    Whatever the message is, a run that ends with a value has seen lines of the input only, in
    order, and has left the reader right behind the last one. -/

namespace Vey.Schemes

/-- What is done with the lines of a message, and how the loop fails. -/
structure LineLoop (σ ε α : Type) where
  /-- a line, and the size of the message up to its end: go on, or the value -/
  line : σ → Bytes → Nat → Except ε (σ ⊕ α)
  /-- the input ended -/
  closed : ε
  tooLarge : ε
  ioFailed : IoError → ε

/-- The loop between two polls. -/
structure LineReader (σ : Type) where
  reader : Source
  taken : Bytes := []
  part : Bytes := []
  state : σ

namespace LineReader

variable {σ ε α : Type}

abbrev Step (σ ε α : Type) := Ctrl (LineReader σ) (Poll (Except ε α))

def fail (h : LineReader σ) (e : ε) : Step σ ε α := .ret (.ready (.error e)) h

variable (k : LineLoop σ ε α)

/-- A line is complete: the size check stands in front of the next read. -/
def found (max : Nat) (h : LineReader σ) : Step σ ε α :=
  let taken := h.taken ++ h.part
  match k.line h.state h.part taken.length with
  | .error e => h.fail e
  | .ok (.inr a) => .ret (.ready (.ok a)) { h with taken, part := [] }
  | .ok (.inl state) =>
    let h := { h with taken, part := [], state }
    if max ≤ taken.length then h.fail k.tooLarge else .next h

/-- There is no line: the input ended, or the limit is passed. -/
def notFound (max : Nat) (h : LineReader σ) : Step σ ε α :=
  if h.part.length = 0 ∨ h.part.length < max - h.taken.length then h.fail k.closed
  else h.fail k.tooLarge

/-- One look into the buffer of the reader. -/
def step (max : Nat) (h : LineReader σ) : Step σ ε α :=
  match h.reader.pollFillBuf with
  | (.pending, s) => .ret .pending { h with reader := s }
  | (.ready (.error e), s) => { h with reader := s }.fail (k.ioFailed e)
  | (.ready (.ok available), s) =>
    let limit := max - h.taken.length
    match memchr lf available with
    | some i =>
      let h := { h with reader := s.consume (i + 1), part := h.part ++ available.take (i + 1) }
      if limit < h.part.length then h.notFound k max else h.found k max
    | none =>
      let used := available.length
      let h := { h with reader := s.consume used, part := h.part ++ available }
      if used = 0 ∨ limit < h.part.length then h.notFound k max else .next h

end LineReader

namespace LineLoop

variable {σ ε α : Type}

def read (k : LineLoop σ ε α) (max : Nat) : Future (LineReader σ) (Except ε α) :=
  ⟨id, LineReader.step k max⟩

/-- The lines handed on so far, and the state they led to. -/
inductive Took (k : LineLoop σ ε α) (s₀ : σ) : List Bytes → σ → Prop where
  | start : Took k s₀ [] s₀
  | line {ls : List Bytes} {s s' : σ} {l : Bytes} : Took k s₀ ls s → IsLine l →
      k.line s l (ls.flatten ++ l).length = .ok (.inl s') → Took k s₀ (ls ++ [l]) s'

/-- The lines handed on up to the value `a`: those in front of the last, and the last. -/
def Gives (k : LineLoop σ ε α) (s₀ : σ) (ls : List Bytes) (last : Bytes) (a : α) : Prop :=
  ∃ s, k.Took s₀ ls s ∧ IsLine last ∧ k.line s last (ls.flatten ++ last).length = .ok (.inr a)

end LineLoop

namespace LineReader

variable {σ ε α : Type} {k : LineLoop σ ε α} {max : Nat} {s₀ : σ} {input : Bytes}
  {h : LineReader σ}

/-- What is read so far is a start of the input, with no complete line left in `part`. -/
structure Inv (k : LineLoop σ ε α) (s₀ : σ) (input : Bytes) (h : LineReader σ) : Prop where
  stream : h.taken ++ h.part ++ h.reader.content = input
  partLine : lf ∉ h.part
  took : ∃ ls, h.taken = ls.flatten ∧ k.Took s₀ ls h.state

/-- The value is the one of the lines taken, and the reader stands right behind them. -/
def Post (k : LineLoop σ ε α) (s₀ : σ) (input : Bytes) (a : α) (h : LineReader σ) : Prop :=
  h.taken ++ h.reader.content = input ∧
    ∃ ls last, h.taken = ls.flatten ++ last ∧ k.Gives s₀ ls last a

theorem notFound_ensures {I : LineReader σ → Prop} {Q : α → LineReader σ → Prop} :
    (h.notFound k max).Ensures I Q := by
  rw [notFound]
  split <;> exact trivial

theorem found_ensures (hline : IsLine h.part)
    (hstream : h.taken ++ h.part ++ h.reader.content = input)
    (htook : ∃ ls, h.taken = ls.flatten ∧ k.Took s₀ ls h.state) :
    (h.found k max).Ensures (Inv k s₀ input) (Post k s₀ input) := by
  obtain ⟨ls, htaken, htook⟩ := htook
  rw [found]
  split
  case h_1 => exact trivial
  case h_2 a ha =>
    rw [htaken] at ha
    exact ⟨hstream, ls, h.part, by rw [htaken], h.state, htook, hline, ha⟩
  case h_3 state hs =>
    rw [htaken] at hs
    split
    · exact trivial
    · refine ⟨by simpa using hstream, List.not_mem_nil, ls ++ [h.part], ?_, htook.line hline hs⟩
      simp [htaken]

theorem step_ensures (hI : Inv k s₀ input h) :
    (h.step k max).Ensures (Inv k s₀ input) (Post k s₀ input) := by
  obtain ⟨hstream, hpart, htook⟩ := hI
  rw [step]
  split
  case h_1 s hf =>
    have hc := h.reader.pollFillBuf_content
    rw [hf] at hc
    exact ⟨by rw [← hstream, ← hc], hpart, htook⟩
  case h_2 => exact trivial
  case h_3 available s hf =>
    obtain ⟨hbuf, hcont, -⟩ := Source.pollFillBuf_ok hf
    dsimp only
    split
    case h_1 i hi =>
      have hsplit := s.consume_content (i + 1)
      rw [hbuf, hcont] at hsplit
      split
      · exact notFound_ensures
      · refine found_ensures ⟨h.part ++ available.take i, ?_, ?_⟩ ?_ htook
        · simp [hpart, (memchr_some hi).1]
        · rw [memchr_take hi, List.append_assoc]
        · rw [← hstream, ← hsplit]; simp
    case h_2 hi =>
      have hsplit := s.consume_content available.length
      rw [hbuf, hcont, List.take_length] at hsplit
      split
      · exact notFound_ensures
      · refine ⟨?_, by simp [hpart, memchr_none hi], htook⟩
        rw [← hstream, ← hsplit]; simp

/-- Every run that ends with a value. -/
theorem read_gives {s : Source} {a : α} {t : LineReader σ}
    (h : (k.read max).Completes { reader := s, state := s₀ } (.ok a) t) :
    t.taken ++ t.reader.content = s.content ∧
      ∃ ls last, t.taken = ls.flatten ++ last ∧ k.Gives s₀ ls last a := by
  refine Future.Completes.ensures (I := Inv k s₀ s.content) (Q := Post k s₀ s.content) id
    step_ensures ?_ h
  exact ⟨by simp, List.not_mem_nil, [], rfl, .start⟩

end LineReader

end Vey.Schemes
