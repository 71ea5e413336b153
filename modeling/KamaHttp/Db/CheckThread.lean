import KamaHttp.Db.Borrowers

/-!
# The thread that checks the connections

`checkConnections` pings the connections of a snapshot of the queue, which stay in the queue: other
threads may take them from there before their turn comes, and while it does.

* `atQueued_iff`: the steps that keep the thread at a connection in the queue.
* `exclusive_of_reaches`: in the runs of such steps, no connection that the thread pings or
  reconnects is lent or in `ping` elsewhere.
* `not_exclusive`: it may ping a connection that is lent.
-/

namespace KamaHttp

open Custody

/-- The connection that is in `ping` or in `reconnect`. -/
def Checker.connection : Checker → Option ℕ
  | .idle => none
  | .checking _ => none
  | .pinging c _ => some c
  | .reconnecting c _ => some c

namespace Borrowers

variable {T τ : Type*}

/-- A connection that the thread of the pool pings or reconnects has no other user: it is not lent,
and no call of `getConnection` pings it. -/
def Exclusive (s : Borrowers T τ) : Prop :=
  ∀ c, s.checker.connection = some c → ∀ t, c ∉ s.loans t ∧ s.borrower t ≠ .pinging c

/-- The thread of the pool begins to ping a connection when it is in the queue, and no connection is
taken from the queue while the thread pings or reconnects it. -/
def Undisturbed (s : Borrowers T τ) : PoolEvent T τ → Prop
  | .check => ∀ c rest, s.checker = .checking (c :: rest) → c ∈ s.pool.connections
  | .acquire _ => ∀ c, s.pool.connections.head? = some c → s.checker.connection ≠ some c
  | _ => True

/-- The connection that the thread of the pool pings or reconnects is in the queue. -/
def AtQueued (s : Borrowers T τ) : Prop :=
  ∀ c, s.checker.connection = some c → c ∈ s.pool.connections

variable {D : MySqlDriver τ} {s s' : Borrowers T τ} {e : PoolEvent T τ}

theorem AtQueued.mono (h : AtQueued s)
    (hchecker : s'.checker.connection = none ∨ s'.checker.connection = s.checker.connection)
    (hqueue : s.pool.connections ⊆ s'.pool.connections) : AtQueued s' := by
  intro c hc
  rcases hchecker with hchecker | hchecker
  · rw [hchecker] at hc
    cases hc
  · exact hqueue (h c (hchecker ▸ hc))

/-- A connection in the queue is nowhere else. -/
theorem AtQueued.exclusive (h : AtQueued s) (hs : AllKept s) : Exclusive s := by
  intro c hc t
  have hqueue : c ∈ s.custody .queue := h c hc
  have hkept : Kept s.custody c := hs.kept c (hs.mem _ c hqueue)
  constructor
  · intro hmem
    have hloan : c ∈ s.custody (.loan t) := hmem
    cases hkept.eq_of_mem hqueue hloan
  · intro hpinging
    have htransit : c ∈ s.custody (.transit t) := by
      rw [custody_transit, hpinging]
      exact List.mem_singleton_self c
    cases hkept.eq_of_mem hqueue htransit

variable [DecidableEq T]

theorem acquire_checker (s : Borrowers T τ) (t : T) : (s.acquire t).checker = s.checker := by
  unfold acquire
  split
  · rfl
  · split <;> rfl

theorem acquire_connections (s : Borrowers T τ) (t : T) :
    (s.acquire t).pool.connections = s.pool.connections.tail := by
  unfold acquire
  split
  · rename_i hqueue
    rw [hqueue]
    rfl
  · rename_i hqueue
    rw [hqueue]
    split <;> exact hqueue

/-- Where the first connection is taken from the queue, the thread of the pool is still at one in
the queue exactly if it was at another one. -/
theorem atQueued_acquire_iff {t : T} (h : AtQueued s) (hs : AllKept s) :
    AtQueued (s.acquire t) ↔ Undisturbed s (.acquire t : PoolEvent T τ) := by
  have hacquire : AtQueued (s.acquire t) ↔
      ∀ c, s.checker.connection = some c → c ∈ s.pool.connections.tail := by
    rw [AtQueued, acquire_checker, acquire_connections]
  rw [hacquire]
  constructor
  · intro hrest c hhead hc
    -- the first connection of the queue is not in it twice
    obtain ⟨rest, hqueue⟩ := List.head?_eq_some_iff.1 hhead
    have hmem : c ∈ s.custody .queue := h c hc
    have hcount := (hs.kept c (hs.mem _ c hmem)).count_of_mem hmem
    rw [custody_queue, hqueue, List.count_cons_self, Nat.add_eq_right, List.count_eq_zero] at hcount
    have htail := hrest c hc
    rw [hqueue] at htail
    exact hcount htail
  · intro hother c hc
    obtain ⟨first, rest, hqueue⟩ := List.exists_cons_of_ne_nil (List.ne_nil_of_mem (h c hc))
    have hmem := h c hc
    rw [hqueue] at hmem ⊢
    refine (List.mem_cons.1 hmem).resolve_left fun heq => ?_
    exact hother first (by rw [hqueue]; rfl) (heq ▸ hc)

/-- **The steps that keep the thread of the pool at a connection in the queue** are those that do
not disturb it. -/
theorem atQueued_iff (hstep : Step D s e s') (h : AtQueued s) (hs : AllKept s) :
    AtQueued s' ↔ Undisturbed s e := by
  cases hstep with
  | acquire => exact atQueued_acquire_iff h hs
  | @check c rest hk =>
    constructor
    · intro h' c' rest' hk'
      obtain ⟨rfl, -⟩ : c = c' ∧ rest = rest' := by
        rw [hk] at hk'
        simpa using hk'
      exact h' c rfl
    · intro hqueued c' hc'
      cases hc'
      exact hqueued c rest hk
  | init call =>
    refine iff_of_true (h.mono (.inr rfl) ?_) trivial
    obtain ⟨n, hqueue, -⟩ := DbConnectionPool.exists_connections_init (D := D) call s.toPoolState
    exact fun c hc => hqueue ▸ List.mem_append_left _ hc
  | giveBack | drop =>
    exact iff_of_true (h.mono (.inr rfl) (List.subset_append_left _ _)) trivial
  | server | ping | alive | lost | reconnected | failed | sleep =>
    exact iff_of_true (h.mono (.inr rfl) (List.Subset.refl _)) trivial
  | snapshot | checked | rechecked =>
    exact iff_of_true (h.mono (.inl rfl) (List.Subset.refl _)) trivial
  | done hk =>
    refine iff_of_true (h.mono (.inl rfl) (List.Subset.refl _)) fun c rest hk' => ?_
    rw [hk] at hk'
    cases hk'
  | notAlive hk => exact iff_of_true (h.mono (.inr (by rw [hk]; rfl)) (List.Subset.refl _)) trivial

/-- **One user at a time**: in the runs in which the thread of the pool is not disturbed, what it
pings or reconnects has no other user. -/
theorem exclusive_of_reaches (h : Reaches (poolSystem D T) Undisturbed s) : Exclusive s := by
  have hinv : AllKept s ∧ AtQueued s := by
    refine h.invariant (I := fun s => AllKept s ∧ AtQueued s) ?_
      fun s e s' hs hundisturbed hnext => ?_
    · rintro s ⟨driver, rfl⟩
      exact ⟨allKept_new driver, fun c hc => nomatch hc⟩
    · have hstep := step_of_next hnext
      exact ⟨hstep.effect.allKept hs.1, (atQueued_iff hstep hs.2 hs.1).2 hundisturbed⟩
  exact hinv.2.exclusive hinv.1

/-- The thread of the pool pings the first connection of the queue. -/
theorem exclusive_of_reaches_checking : ∃ s : Borrowers Unit (List Bool),
    s.checker = .pinging 0 [1] ∧ s.pool.connections = [0, 1] ∧ Exclusive s := by
  have hreach : Reaches (poolSystem DbConnectionPool.refusing Unit) Undisturbed _ :=
    .step (e := .check) (.step (e := .snapshot)
      (.step (e := .init (DbConnectionPool.callAs (bytes "app"))) (.init ⟨[], rfl⟩) trivial rfl)
      trivial rfl) (fun c rest hk => by cases hk; decide) rfl
  exact ⟨_, rfl, rfl, exclusive_of_reaches hreach⟩

/-- The thread of the pool may ping a connection that was taken from the queue, and lent, behind its
snapshot. -/
theorem not_exclusive : ∃ s : Borrowers Unit (List Bool),
    Reaches (poolSystem DbConnectionPool.refusing Unit) Always s ∧
      s.checker = .pinging 0 [1] ∧ s.loans () = [0] ∧ ¬ Exclusive s := by
  have hrun : [.init (DbConnectionPool.callAs (bytes "app")), .snapshot, .acquire (), .ping (),
      .pinged (), .check].foldlM (next DbConnectionPool.refusing) (new []) = some _ := rfl
  refine ⟨_, .of_foldlM (fun _ _ _ h => ⟨trivial, h⟩) (.init ⟨[], rfl⟩) hrun, rfl, rfl, ?_⟩
  exact fun h => (h 0 rfl ()).1 (List.mem_singleton_self 0)

end Borrowers

end KamaHttp
