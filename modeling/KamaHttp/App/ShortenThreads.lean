import Mathlib.Logic.Relation
import KamaHttp.App.Links
import KamaHttp.Foundations.System

/-!
# Threads that shorten

Any number of threads run `ShortenHandler::handle` on one store in memory. `setNX` looks an
identifier up and writes it in two steps, each under the lock of the shard, and the steps of other
threads may come between them.

* `exists_steps_attempts`: a thread that runs alone does what `ShortenHandler::handle` does.
* `unique_of_reaches`: the identifiers handed out are distinct and map to their URLs, in the runs
  in which no thread writes an identifier that is in the store by then.
* `not_unique_of_taken`: a thread that does breaks it.
-/

namespace KamaHttp

open MemoryStore

/-- Where a thread is: without a request, before an attempt with the number of attempts left, or in
`setNX`, before it looks the identifier up or before it writes it. -/
inductive Thread
  | idle
  | attempt (url : Bytes) (left : ℕ)
  | get (url id : Bytes) (left : ℕ)
  | set (url id : Bytes) (left : ℕ)
  deriving DecidableEq

namespace Thread

/-- A thread that has just read a request. The time to live is of no use to the store. -/
def accept (req : HttpRequest) : Thread :=
  match parseJson req.getBody with
  | none => .idle
  | some (url, _) => if UrlValidator.valid url then .attempt url 5 else .idle

variable {shards : ℕ+}

/-- One step of a thread, with the string it draws if it draws one: where it is then, the store, and
the identifier and the URL if the request is answered 200. -/
def next (draw : Bytes) (kv : KVStore shards) :
    Thread → Thread × KVStore shards × Option (Bytes × Bytes)
  | .idle => (.idle, kv, none)
  | .attempt _ 0 => (.idle, kv, none)
  | .attempt url (left + 1) => (.get url draw left, kv, none)
  | .get url id left =>
    (if (find kv id).isSome then .attempt url left else .set url id left, kv, none)
  | .set url id _ => (.idle, kv.set (shard shards id) id url, some (id, url))

end Thread

/-- The store, where each thread is, and the identifiers and URLs of the requests answered 200, the
last one first. -/
structure Threads (shards : ℕ+) (T : Type*) where
  kv : KVStore shards
  thread : T → Thread
  created : List (Bytes × Bytes)

/-- A thread reads a request, or makes a step. -/
inductive ThreadEvent (T : Type*)
  | request (t : T) (req : HttpRequest)
  | step (t : T) (draw : Bytes)

variable {shards : ℕ+} {T : Type*} [DecidableEq T]

namespace Threads

def next (s : Threads shards T) : ThreadEvent T → Threads shards T
  | .request t req => { s with thread := Function.update s.thread t (.accept req) }
  | .step t draw =>
    let result := (s.thread t).next draw s.kv
    { kv := result.2.1
      thread := Function.update s.thread t result.1
      created := result.2.2.toList ++ s.created }

/-- A thread reads a request when it has none, and makes steps when it has one. -/
def Enabled (s : Threads shards T) : ThreadEvent T → Prop
  | .request t _ => s.thread t = .idle
  | .step t draw => s.thread t ≠ .idle ∧ IsShortId draw

instance (s : Threads shards T) : DecidablePred s.Enabled
  | .request t _ => inferInstanceAs (Decidable (s.thread t = .idle))
  | .step t draw => inferInstanceAs (Decidable (s.thread t ≠ .idle ∧ draw.length = 7 ∧ _))

end Threads

/-- The runs of the threads, in any order, on any store. -/
def threadSystem (shards : ℕ+) (T : Type*) [DecidableEq T] :
    System (Threads shards T) (ThreadEvent T) where
  init s := ∃ kv, s = ⟨kv, fun _ => .idle, []⟩
  step s e s' := s.Enabled e ∧ s' = s.next e

/-! ## A thread alone -/

/-- What a request that ends leaves: the thread is idle, and the store, the answer and the record of
the identifiers agree. -/
structure Served (s s' : Threads shards T) (t : T) (url : Bytes) (resp : HttpResponse)
    (result : Answer × State (KVStore shards)) : Prop where
  idle : s'.thread t = .idle
  kv : s'.kv = result.2.store
  created : (s'.created = s.created ∧ result.1.response.statusCode = 500) ∨
    ∃ id, s'.created = (id, url) :: s.created ∧
      result.1 = .returns (ShortenHandler.created id resp)

/-- **A thread that runs alone** goes through the attempts of `ShortenHandler::handle`, with the
identifiers that the generator draws. -/
theorem exists_steps_attempts (url : Bytes) (ttl : ℤ) (resp : HttpResponse) {n : ℕ}
    {st : State (KVStore shards)} {s : Threads shards T} {t : T}
    (ht : s.thread t = .attempt url n) (hkv : s.kv = st.store) :
    ∃ draws : List Bytes, Runs Threads.Enabled Threads.next s (draws.map (.step t)) ∧
      Served s ((draws.map (.step t)).foldl Threads.next s) t url resp
        (ShortenHandler.attempts (memoryStore shards) url ttl resp n st) := by
  induction n generalizing s st with
  | zero =>
    have hid := isShortId_random st.dist
    refine ⟨[(ShortId.random 7 st.dist).1], ⟨⟨by simp [ht], hid⟩, trivial⟩, ?_, ?_, .inl ⟨?_, rfl⟩⟩
    · simp [Threads.next, ht, Thread.next]
    · simp [Threads.next, ht, Thread.next, hkv, ShortenHandler.attempts]
    · simp [Threads.next, ht, Thread.next]
  | succ n ih =>
    have hid := isShortId_random st.dist
    unfold ShortenHandler.attempts
    simp only [setNX_eq]
    generalize (ShortId.random 7 st.dist).1 = id at hid
    -- the identifier is drawn, and looked up
    let s₁ := s.next (.step t id)
    have h₁ : s₁.thread t = .get url id n ∧ s₁.kv = st.store ∧ s₁.created = s.created := by
      simp [s₁, Threads.next, ht, Thread.next, hkv]
    have e₁ : s₁.thread t ≠ .idle := by simp [h₁.1]
    let s₂ := s₁.next (.step t id)
    cases hf : find st.store id with
    | none =>
      have h₂ : s₂.thread t = .set url id n ∧ s₂.kv = st.store ∧ s₂.created = s.created := by
        simp [s₂, Threads.next, h₁, Thread.next, hf]
      have e₂ : s₂.thread t ≠ .idle := by simp [h₂.1]
      have hruns : Runs Threads.Enabled Threads.next s [.step t id, .step t id, .step t id] :=
        ⟨⟨by simp [ht], hid⟩, ⟨e₁, hid⟩, ⟨e₂, hid⟩, trivial⟩
      refine ⟨[id, id, id], hruns, ?_, ?_, .inr ⟨id, ?_, rfl⟩⟩
      · show (s₂.next (.step t id)).thread t = .idle
        simp [Threads.next, h₂, Thread.next]
      · show (s₂.next (.step t id)).kv = _
        simp [Threads.next, h₂, Thread.next]
      · show (s₂.next (.step t id)).created = _
        simp [Threads.next, h₂, Thread.next]
    | some v =>
      have h₂ : s₂.thread t = .attempt url n ∧ s₂.kv = st.store ∧ s₂.created = s.created := by
        simp [s₂, Threads.next, h₁, Thread.next, hf]
      simp only [Option.isSome_some, if_true]
      let st₂ : State (KVStore shards) :=
        State.count { st with store := st.store, dist := (ShortId.random 7 st.dist).2 }
          fun m => { m with storeSetnxConflict := m.storeSetnxConflict + 1 }
      have hkv₂ : s₂.kv = st₂.store := h₂.2.1
      obtain ⟨draws, hruns, hserved⟩ := ih h₂.1 hkv₂
      refine ⟨id :: id :: draws, ⟨⟨by simp [ht], hid⟩, ⟨e₁, hid⟩, hruns⟩, ?_⟩
      refine ⟨hserved.idle, hserved.kv, ?_⟩
      have hcreated := hserved.created
      rw [h₂.2.2] at hcreated
      exact hcreated

/-! ## Unique identifiers -/

/-- No two requests were given the same identifier, and each identifier maps to the URL of the
request it was given to. -/
structure UniqueIds (s : Threads shards T) : Prop where
  nodup : (s.created.map Prod.fst).Nodup
  mapped : ∀ id url, (id, url) ∈ s.created → find s.kv id = some url

/-- A thread that is about to write an identifier finds none under it, still. -/
def Untaken (s : Threads shards T) : ThreadEvent T → Prop
  | .request _ _ => True
  | .step t _ => ∀ url id left, s.thread t = .set url id left → find s.kv id = none

/-- The identifier that a thread is about to write. -/
def Thread.writes? : Thread → Option Bytes
  | .set _ id _ => some id
  | _ => none

theorem Thread.writes?_eq_some {x : Thread} {id : Bytes} :
    x.writes? = some id ↔ ∃ url left, x = .set url id left := by
  cases x <;> simp [writes?]

instance (s : Threads shards T) : DecidablePred (Untaken s)
  | .request _ _ => .isTrue trivial
  | .step t _ =>
    decidable_of_iff (∀ id ∈ (s.thread t).writes?, find s.kv id = none) <| by
      simp only [Option.mem_def, Thread.writes?_eq_some]
      exact ⟨fun h url id left ht => h id ⟨url, left, ht⟩,
        fun h id ⟨url, left, ht⟩ => h url id left ht⟩

variable {s s' : Threads shards T} {t : T}

/-- What a step does to the store: nothing, and no request is answered 200, or it writes the
identifier the thread was about to write. -/
theorem next_cases (s : Threads shards T) (e : ThreadEvent T) :
    ((s.next e).kv = s.kv ∧ (s.next e).created = s.created) ∨
      ∃ t draw url id left, e = .step t draw ∧ s.thread t = .set url id left ∧
        (s.next e).kv = s.kv.set (shard shards id) id url ∧
        (s.next e).created = (id, url) :: s.created := by
  cases e with
  | request t req => exact .inl ⟨rfl, rfl⟩
  | step t draw =>
    have hkv : (s.next (.step t draw)).kv = ((s.thread t).next draw s.kv).2.1 := rfl
    have hcreated : (s.next (.step t draw)).created =
        ((s.thread t).next draw s.kv).2.2.toList ++ s.created := rfl
    rw [hkv, hcreated]
    cases ht : s.thread t with
    | idle => exact .inl ⟨rfl, rfl⟩
    | attempt url left => cases left <;> exact .inl ⟨rfl, rfl⟩
    | get url id left => exact .inl ⟨rfl, rfl⟩
    | set url id left => exact .inr ⟨t, draw, url, id, left, rfl, ht, rfl, rfl⟩

/-- A step in which no identifier is taken keeps the identifiers unique. -/
theorem UniqueIds.next (h : UniqueIds s) {e : ThreadEvent T} (hu : Untaken s e) :
    UniqueIds (s.next e) := by
  rcases next_cases s e with ⟨hkv, hcreated⟩ | ⟨t, draw, url, id, left, rfl, ht, hkv, hcreated⟩
  · refine ⟨by rw [hcreated]; exact h.nodup, fun id url hmem => ?_⟩
    rw [hkv]
    exact h.mapped id url (hcreated ▸ hmem)
  · have hfree := hu url id left ht
    have hnew : ∀ url', (id, url') ∉ s.created := fun url' hmem => by
      rw [h.mapped id url' hmem] at hfree
      cases hfree
    refine ⟨?_, fun id' url' hmem => ?_⟩
    · rw [hcreated]
      refine List.nodup_cons.2 ⟨fun hmem => ?_, h.nodup⟩
      obtain ⟨⟨id', url'⟩, hold, hid⟩ := List.mem_map.1 hmem
      obtain rfl : id' = id := hid
      exact hnew url' hold
    · rw [hcreated] at hmem
      rw [hkv, find_set]
      rcases List.mem_cons.1 hmem with hnew' | hold
      · cases hnew'
        exact if_pos rfl
      · have hne : id' ≠ id := by
          rintro rfl
          exact hnew url' hold
        rw [if_neg hne]
        exact h.mapped id' url' hold

/-- **Unique identifiers.** In every state reached by steps in which no thread writes an identifier
that is in the store by then, no two requests were given the same identifier, and each identifier
maps to the URL of its request. -/
theorem unique_of_reaches (h : Reaches (threadSystem shards T) Untaken s) : UniqueIds s := by
  refine h.invariant ?_ ?_
  · rintro _ ⟨kv, rfl⟩
    exact ⟨List.nodup_nil, fun _ _ hmem => by cases hmem⟩
  · rintro s e _ hs hu ⟨-, rfl⟩
    exact hs.next hu

/-- A request to shorten a URL. -/
def shortenUrl (url : Bytes) : HttpRequest :=
  { HttpRequest.new with
    method := .kPost
    path := bytes "/api/shorten"
    content := bytes "\x7b\"url\":\"" ++ url ++ bytes "\"\x7d" }

/-- Two threads without requests, on a new store. -/
def idleThreads (shards : ℕ+) : Threads shards Bool := ⟨.new shards, fun _ => .idle, []⟩

/-- Two threads shorten, a step of the one after a step of the other, and draw `id` and `id'`. -/
def race (id id' : Bytes) : List (ThreadEvent Bool) :=
  [.request false (shortenUrl (bytes "http://a")), .request true (shortenUrl (bytes "http://b")),
    .step false id, .step true id', .step false id, .step true id', .step false id, .step true id']

theorem unique_of_reaches_race :
    ∃ s : Threads 8 Bool, Reaches (threadSystem 8 Bool) Untaken s ∧
      s.created = [(bytes "0000001", bytes "http://b"), (bytes "0000000", bytes "http://a")] ∧
      UniqueIds s := by
  have hruns : Runs (fun s e => Untaken s e ∧ s.Enabled e) Threads.next (idleThreads 8)
      (race (bytes "0000000") (bytes "0000001")) := by
    decide +kernel
  have hreaches := Reaches.of_runs (S := threadSystem 8 Bool) (G := Untaken)
    (fun _ _ he => ⟨he.1, he.2, rfl⟩) (.init ⟨.new 8, rfl⟩) hruns
  exact ⟨_, hreaches, by decide +kernel, unique_of_reaches hreaches⟩

/-! ## What goes wrong -/

/-- An identifier that a thread is about to write was free when it was looked up: what is under it
by now was handed out since. -/
def TakenByCreated (s : Threads shards T) : Prop :=
  ∀ t url id left, s.thread t = .set url id left →
    (find s.kv id).isSome → ∃ url', (id, url') ∈ s.created

/-- A thread that is about to write was so before, or has just found the identifier free. -/
theorem thread_next_eq_set {e : ThreadEvent T} {url id : Bytes} {left : ℕ}
    (h : (s.next e).thread t = .set url id left) :
    s.thread t = .set url id left ∨ (find s.kv id = none ∧ (s.next e).kv = s.kv) := by
  cases e with
  | request t' req =>
    by_cases ht : t = t'
    · subst ht
      simp only [Threads.next, Function.update_self, Thread.accept] at h
      split at h
      · cases h
      · split at h <;> cases h
    · simp only [Threads.next, Function.update_of_ne ht] at h
      exact .inl h
  | step t' draw =>
    by_cases ht : t = t'
    · subst ht
      have hkv : (s.next (.step t draw)).kv = ((s.thread t).next draw s.kv).2.1 := rfl
      simp only [Threads.next, Function.update_self] at h
      rw [hkv]
      cases hs : s.thread t with
      | idle => rw [hs] at h; cases h
      | attempt url' left' => rw [hs] at h; cases left' <;> cases h
      | set url' id' left' => rw [hs] at h; cases h
      | get url' id' left' =>
        rw [hs] at h
        simp only [Thread.next] at h
        split at h
        · cases h
        · rename_i hnone
          cases h
          exact .inr ⟨by simpa using hnone, rfl⟩
    · simp only [Threads.next, Function.update_of_ne ht] at h
      exact .inl h

theorem takenByCreated_of_reaches {G : Threads shards T → ThreadEvent T → Prop}
    (h : Reaches (threadSystem shards T) G s) : TakenByCreated s := by
  refine h.invariant ?_ ?_
  · rintro _ ⟨kv, rfl⟩ t url id left ht
    cases ht
  · rintro s e _ hs - ⟨-, rfl⟩ t url id left ht hsome
    rcases thread_next_eq_set ht with ht | ⟨hnone, hkv⟩
    · rcases next_cases s e with ⟨hkv, hcreated⟩ | ⟨t', draw, url', id', left', -, -, hkv, hcreated⟩
      · rw [hkv] at hsome
        rw [hcreated]
        exact hs t url id left ht hsome
      · rw [hcreated]
        by_cases hid : id = id'
        · exact ⟨url', by simp [hid]⟩
        · rw [hkv, find_set, if_neg hid] at hsome
          obtain ⟨url'', hmem⟩ := hs t url id left ht hsome
          exact ⟨url'', List.mem_cons_of_mem _ hmem⟩
    · rw [hkv, hnone] at hsome
      cases hsome

/-- **A taken identifier is handed out twice.** In any state reached, a thread that writes an
identifier that is in the store by then breaks the uniqueness. -/
theorem not_unique_of_taken {G : Threads shards T → ThreadEvent T → Prop}
    (h : Reaches (threadSystem shards T) G s) {e : ThreadEvent T} (hu : ¬ Untaken s e) :
    ¬ UniqueIds (s.next e) := by
  intro hunique
  rcases next_cases s e with ⟨hkv, hcreated⟩ | ⟨t, draw, url, id, left, rfl, ht, hkv, hcreated⟩
  · apply hu
    cases e with
    | request t req => trivial
    | step t draw =>
      intro url id left ht
      have hlen : (s.next (.step t draw)).created.length = s.created.length + 1 := by
        simp [Threads.next, ht, Thread.next]
      rw [hcreated] at hlen
      omega
  · have hsome : (find s.kv id).isSome := by
      rw [Option.isSome_iff_ne_none]
      intro hnone
      refine hu fun url' id' left' ht' => ?_
      rw [ht] at ht'
      cases ht'
      exact hnone
    obtain ⟨url', hmem⟩ := takenByCreated_of_reaches h t url id left ht hsome
    have hnodup := hunique.nodup
    rw [hcreated] at hnodup
    have hold : id ∈ s.created.map Prod.fst := List.mem_map_of_mem (f := Prod.fst) hmem
    exact (List.nodup_cons.1 hnodup).1 hold

/-- Two requests are given the same identifier, and it maps to the URL of the second. -/
theorem same_id_handed_out_twice :
    ∃ s : Threads 8 Bool, Reaches (threadSystem 8 Bool) Always s ∧
      s.created = [(bytes "0000000", bytes "http://b"), (bytes "0000000", bytes "http://a")] ∧
      find s.kv (bytes "0000000") = some (bytes "http://b") ∧ ¬ UniqueIds s := by
  refine ⟨(race (bytes "0000000") (bytes "0000000")).foldl Threads.next (idleThreads 8), ?_,
    by decide +kernel, by decide +kernel, fun h => ?_⟩
  · exact Reaches.of_runs (fun _ _ he => ⟨trivial, he, rfl⟩) (.init ⟨.new 8, rfl⟩)
      (by decide +kernel : Runs Threads.Enabled Threads.next _ _)
  · have hmapped := h.mapped (bytes "0000000") (bytes "http://a") (by decide +kernel)
    revert hmapped
    decide +kernel

end KamaHttp
