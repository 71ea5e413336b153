import KamaHttp.Foundations.Bytes
import KamaHttp.Foundations.Search

/-!
# Texts of samples

The text format in which counters are exposed: a line is a comment, which begins with `#`, or a
sample: a name, a space and a number.

* `samples_render`: a text that is written line by line is read as its samples.
-/

namespace KamaHttp.Exposition

open Search

/-- A line of the text. -/
inductive Line
  | comment (text : Bytes)
  | sample (name : Bytes) (value : ℕ)

/-- What a line is written as. -/
def Line.text : Line → Bytes
  | .comment text => 35 :: text
  | .sample name value => name ++ 32 :: decimal value

/-- The sample of a line, if it is one. -/
def Line.sample? : Line → List (Bytes × ℕ)
  | .comment _ => []
  | .sample name value => [(name, value)]

/-- The line can be written: it has no line feed, and a name is not empty, has no space and does not
begin a comment. -/
def Line.WellFormed : Line → Prop
  | .comment text => 10 ∉ text
  | .sample name _ => name ≠ [] ∧ name.head? ≠ some 35 ∧ 32 ∉ name ∧ 10 ∉ name

instance : DecidablePred Line.WellFormed
  | .comment text => inferInstanceAs (Decidable (10 ∉ text))
  | .sample name _ =>
    inferInstanceAs (Decidable (name ≠ [] ∧ name.head? ≠ some 35 ∧ 32 ∉ name ∧ 10 ∉ name))

/-- The lines, each with a line feed behind it. -/
def render (lines : List Line) : Bytes := lines.flatMap fun l => l.text ++ [10]

/-- The number that the digits stand for. -/
def readNumber (s : Bytes) : Option ℕ :=
  if s ≠ [] ∧ s.all isdigit then some (digitsVal s) else none

/-- A line is read: an empty one and a comment have no sample. -/
def readLine (line : Bytes) : Option (List (Bytes × ℕ)) :=
  if line = [] ∨ line.head? = some 35 then some []
  else (breakOn [32] line).bind fun p => (readNumber p.2).map fun v => [(p.1, v)]

/-- A text is read, line by line. -/
def samples (text : Bytes) : Option (List (Bytes × ℕ)) :=
  ((text.splitOn 10).mapM readLine).map List.flatten

variable {l : Line} {lines : List Line}

theorem readNumber_decimal (n : ℕ) : readNumber (decimal n) = some n := by
  obtain ⟨hval, hne, hdigits⟩ := digitsVal_decimal n
  rw [readNumber, if_pos ⟨hne, List.all_eq_true.2 hdigits⟩, hval]

/-- **A line is read as it was written.** -/
theorem readLine_text (h : l.WellFormed) : readLine l.text = some l.sample? := by
  cases l with
  | comment text => rfl
  | sample name value =>
    obtain ⟨hne, hhead, hspace, -⟩ := h
    obtain ⟨b, name, rfl⟩ := List.exists_cons_of_ne_nil hne
    have hb : b ≠ 35 := fun heq => hhead (congrArg some heq)
    rw [Line.text, readLine, if_neg (by simp [hb]), breakOn_singleton hspace, Option.bind_some,
      readNumber_decimal]
    rfl

theorem not_mem_text (h : l.WellFormed) : 10 ∉ l.text := by
  cases l with
  | comment text => exact fun hmem => (List.mem_cons.1 hmem).elim (by decide) h
  | sample name value =>
    have hdigits : 10 ∉ decimal value := not_mem_decimal (by decide) value
    have hne : (10 : Byte) ≠ 32 := by decide
    simp [Line.text, h.2.2.2, hdigits, hne]

/-- **A text is read as its samples.** -/
theorem samples_render (h : ∀ l ∈ lines, l.WellFormed) :
    samples (render lines) = some (lines.flatMap Line.sample?) := by
  have hlines : ((render lines).splitOn 10).mapM readLine =
      some (lines.map Line.sample? ++ [[]]) := by
    induction lines with
    | nil => rfl
    | cons l lines ih =>
      obtain ⟨hl, hlines⟩ := List.forall_mem_cons.1 h
      have hrender : render (l :: lines) = l.text ++ 10 :: render lines := by
        rw [render, List.flatMap_cons, List.append_assoc]
        rfl
      rw [hrender, List.splitOn_append_cons_self_of_not_mem (not_mem_text hl), List.mapM_cons,
        readLine_text hl, ih hlines]
      rfl
  rw [samples, hlines, Option.map_some, List.flatten_append, List.flatMap_def]
  simp

end KamaHttp.Exposition
