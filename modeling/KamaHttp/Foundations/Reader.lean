import Mathlib.Data.List.Basic
import KamaHttp.Foundations.Loop

/-!
# Incremental readers

A reader is a loop over a state and the unread part of a stream: an iteration consumes some of the
unread elements, and the loop leaves with a result, either because it is done or because it *waits*
for more of the stream. Three laws make it incremental: an iteration that goes round again, or
leaves for good, does the same when more of the stream is already there, and a waiting one has
changed nothing.

* `Reader.returns_append`: a reader that is done is done in the same way on every extension of the
  stream, and leaves the extension unread.
* `Reader.returns_append_iff_of_waits`: a reader that waits may be resumed on what comes next; it
  ends as it would have on the whole stream at once.
* `Reader.waits_of_reads_append`: on a proper part of what it reads exactly, the reader waits.
-/

namespace KamaHttp

open Loop

/-- What a reader leaves behind: a value, the state it is in and the elements it has not read. -/
structure Left (α σ ρ : Type*) where
  ret : ρ
  context : σ
  unread : List α
  deriving DecidableEq

variable {α σ ρ : Type*}

/-- The same result with `t` behind the unread elements. -/
def Left.append (r : Left α σ ρ) (t : List α) : Left α σ ρ := { r with unread := r.unread ++ t }

@[simp] theorem Left.append_unread (r : Left α σ ρ) (t : List α) :
    (r.append t).unread = r.unread ++ t := rfl

/-- An incremental reader. -/
structure Reader (α σ ρ : Type*) where
  /-- One iteration on a state and the unread elements. -/
  iter : σ × List α → Step (σ × List α) (Left α σ ρ)
  /-- The reader has left only to wait for more. -/
  Waits : Left α σ ρ → Prop
  next_append : ∀ {s b s' b'}, iter (s, b) = .next (s', b') →
    ∀ t, iter (s, b ++ t) = .next (s', b' ++ t)
  stop_append : ∀ {s b r}, iter (s, b) = .stop r → ¬ Waits r →
    ∀ t, iter (s, b ++ t) = .stop (r.append t)
  wait_eq : ∀ {s b r}, iter (s, b) = .stop r → Waits r → r.context = s ∧ r.unread = b

namespace Reader

variable (rd : Reader α σ ρ) {s : σ} {b : List α} {r x : Left α σ ρ}

/-- The reader, in state `s` with `b` unread, leaves with `r`. -/
def Reads (s : σ) (b : List α) (r : Left α σ ρ) : Prop := Returns rd.iter (s, b) r

variable {rd}

/-- **A reader that is done is done in the same way on every extension of the stream.** -/
theorem returns_append (h : rd.Reads s b r) (hr : ¬ rd.Waits r) (t : List α) :
    rd.Reads s (b ++ t) (r.append t) := by
  unfold Reads at *
  generalize hp : (s, b) = p at h
  induction h generalizing s b with
  | stop hs =>
    subst hp
    exact .stop (rd.stop_append hs hr t)
  | next hs _ ih =>
    subst hp
    exact .next (rd.next_append hs t) (ih hr rfl)

/-- **A reader that waits may be resumed on what comes next.** -/
theorem returns_append_iff_of_waits (h : rd.Reads s b r) (hr : rd.Waits r) (t : List α) :
    rd.Reads s (b ++ t) x ↔ rd.Reads r.context (r.unread ++ t) x := by
  unfold Reads at *
  generalize hp : (s, b) = p at h
  induction h generalizing s b with
  | stop hs =>
    subst hp
    obtain ⟨h₁, h₂⟩ := rd.wait_eq hs hr
    rw [h₁, h₂]
  | next hs _ ih =>
    subst hp
    rw [returns_iff_of_next (rd.next_append hs t)]
    exact ih hr rfl

/-- A proper prefix of a stream that the reader reads exactly, leaving nothing, makes it wait. -/
theorem waits_of_reads_append {t : List α} (h : rd.Reads s (b ++ t) x) (hx : x.unread = [])
    (ht : t ≠ []) (hr : rd.Reads s b r) : rd.Waits r := by
  by_contra hw
  have he := Loop.Returns.deterministic h (returns_append hr hw t)
  rw [he, Left.append_unread, List.append_eq_nil_iff] at hx
  exact ht hx.2

end Reader

end KamaHttp
