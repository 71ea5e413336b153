import KamaHttp.Ssl.SslConnection

/-!
# What OpenSSL puts out on a connection with TLS

`send` flushes `writeBio_` when `SSL_write` has accepted something. The handshake, reading and a
failed `SSL_write` do not flush, and what is accepted in part is not written on.

* `complete_iff`: behind which calls all has been sent.
* `along_completes_iff`: in which runs all is sent behind every call.
* `serverHello_unsent`: a handshake whose first answer is not sent.
-/

namespace KamaHttp.SslConnection

variable {κ ε : Type*} (ssl : OpenSsl ε) (httpCallback : HttpCallback κ) (e : ε) (app : κ)
  {s s' : SslConnection κ ε} {c : Call}

/-- **All has been sent behind a call**: `writeBio_` is empty, what OpenSSL has put out has been
passed to `conn_->send`, and data to be sent on an established connection have been accepted
whole, or an error has been logged. -/
structure Complete (s : SslConnection κ ε) (c : Call) (s' : SslConnection κ ε) : Prop where
  empty : s'.writeBio = []
  sent : s'.moved .sent = s'.moved .writeBio
  whole : ∀ data, c = .send data → s.state = .established →
    s'.accepted = s.accepted ++ [(data.length : ℤ)] ∨ ∃ text, s'.errors = s.errors ++ [text]

/-- OpenSSL puts out nothing where the call does not flush, and accepts the data whole if it
accepts any. -/
def Quiet (s : SslConnection κ ε) : Call → Prop
  | .startHandshake => (ssl.doHandshake (ssl.setAcceptState s.ssl) s.readBio).output = []
  | .onRead data _ _ =>
    (s.state = .handshake →
      (ssl.doHandshake s.ssl (s.readBio ++ (s.inputBuffer ++ data))).output = []) ∧
    (s.state = .established → ReadsQuietly ssl s.ssl s.readBio)
  | .send data => s.state = .established →
    let r := ssl.write s.ssl s.readBio data (toInt32 data.length)
    (r.result ≤ 0 → r.output = []) ∧ (0 < r.result → r.result = data.length)

/-- All has been sent behind the call. -/
def Completes (before : List Call) (c : Call) : Prop :=
  ∃ s s', behind ssl httpCallback e app before = some s ∧ call ssl httpCallback s c = some s' ∧
    Complete s c s'

/-- The call is quiet in the state in which it is made. -/
def IsQuiet (before : List Call) (c : Call) : Prop :=
  ∃ s, behind ssl httpCallback e app before = some s ∧ Quiet ssl s c

/-- Behind a call that is no sending, all has been sent exactly if `writeBio_` is empty. -/
theorem complete_iff_of_sound (h : Sound s') (hc : ∀ data, c ≠ .send data) :
    Complete s c s' ↔ s'.writeBio = [] := by
  refine ⟨Complete.empty, fun hempty => ⟨hempty, ?_, fun data hdata => absurd hdata (hc data)⟩⟩
  rw [h.output, hempty, List.append_nil]

theorem complete_send_iff (h : Sound s) (hw : s.writeBio = []) (data : Bytes) :
    Complete s (.send data) (send ssl data s) ↔ Quiet ssl s (.send data) := by
  have hsound := h.send ssl data
  have hsent : (send ssl data s).writeBio = [] →
      (send ssl data s).moved .sent = (send ssl data s).moved .writeBio := fun hempty => by
    rw [hsound.output, hempty, List.append_nil]
  by_cases hstate : s.state = .established
  · by_cases hfailed : (ssl.write s.ssl s.readBio data (toInt32 data.length)).result ≤ 0
    · obtain ⟨text, hsend⟩ := send_of_failed ssl data hstate hfailed
      have hwriteBio : (send ssl data s).writeBio =
          (ssl.write s.ssl s.readBio data (toInt32 data.length)).output := by
        rw [hsend]
        exact congrArg (· ++ _) hw
      have herrors : (send ssl data s).errors = s.errors ++ [text] := by
        rw [hsend]
        rfl
      constructor
      · intro hc _
        exact ⟨fun _ => hwriteBio ▸ hc.empty, fun hpos => absurd hfailed (not_le.2 hpos)⟩
      · intro hq
        have hempty := hwriteBio.trans ((hq hstate).1 hfailed)
        exact ⟨hempty, hsent hempty, fun _ _ _ => .inr ⟨text, herrors⟩⟩
    · have hsend := send_of_accepted ssl data hstate hfailed
      have hempty : (send ssl data s).writeBio = [] := by
        rw [hsend]
        rfl
      have haccepted : (send ssl data s).accepted =
          s.accepted ++ [(ssl.write s.ssl s.readBio data (toInt32 data.length)).result] := by
        rw [hsend]
        rfl
      have herrors : (send ssl data s).errors = s.errors := by
        rw [hsend]
        rfl
      constructor
      · intro hc _
        refine ⟨fun h => absurd h hfailed, fun _ => ?_⟩
        rcases hc.whole data rfl hstate with h | ⟨text, h⟩
        · rw [haccepted, List.append_cancel_left_eq] at h
          exact List.head_eq_of_cons_eq h
        · simp [herrors] at h
      · intro hq
        refine ⟨hempty, hsent hempty, fun data' hdata _ => .inl ?_⟩
        cases hdata
        rw [haccepted, (hq hstate).2 (not_le.1 hfailed)]
  · refine iff_of_true ?_ fun h => absurd h hstate
    have hempty : (send ssl data s).writeBio = [] := by
      rw [send_of_not_established ssl data hstate]
      exact hw
    exact ⟨hempty, hsent hempty, fun _ _ h => absurd h hstate⟩

/-- **Behind which calls all has been sent**: the quiet ones. -/
theorem complete_iff (h : Sound s) (hw : s.writeBio = [])
    (hc : call ssl httpCallback s c = some s') : Complete s c s' ↔ Quiet ssl s c := by
  have hsound := h.of_call ssl httpCallback hc
  cases c with
  | startHandshake =>
    obtain rfl := Option.some.inj hc
    rw [complete_iff_of_sound hsound (fun _ h => by cases h),
      (called_startHandshake ssl s).writeBio, hw]
    rfl
  | send data =>
    obtain rfl := Option.some.inj hc
    exact complete_send_iff ssl h hw data
  | onRead data ne t =>
    rw [complete_iff_of_sound hsound fun _ h => by cases h]
    rcases h.state with hstate | hstate
    · obtain rfl :=
        Option.some.inj ((arrive_handshake ssl httpCallback data t hstate).symm.trans hc)
      have hcalled := called_handleHandshake ssl
        ((s.move .arrived data).bioWrite (s.inputBuffer ++ data))
      show (handleHandshake ssl _).writeBio = [] ↔ _
      rw [hcalled.writeBio, show ((s.move .arrived data).bioWrite _).writeBio = [] from hw]
      simp only [Quiet, hstate, true_imp_iff, reduceCtorEq, false_imp_iff, and_true]
      rfl
    · obtain ⟨s₁, out, plain, harrive, hcalled, hout⟩ :=
        arrive_established ssl httpCallback data t hstate h.input
      obtain rfl := Option.some.inj (harrive.symm.trans hc)
      show s₁.writeBio = [] ↔ _
      rw [hcalled.writeBio, writeBio_move, hw]
      simp only [Quiet, hstate, true_imp_iff, reduceCtorEq, false_imp_iff, true_and]
      exact hout

/-- **In which runs all is sent behind every call**: in those whose calls are quiet. -/
theorem along_completes_iff (calls : List Call) :
    Along (Completes ssl httpCallback e app) calls ↔
      Along (IsQuiet ssl httpCallback e app) calls := by
  have hempty : ∀ calls, Along (IsQuiet ssl httpCallback e app) calls →
      ∃ s, behind ssl httpCallback e app calls = some s ∧ Sound s ∧ s.writeBio = [] := by
    intro calls halong
    refine halong.invariant (I := fun calls => ∃ s, behind ssl httpCallback e app calls = some s ∧
      Sound s ∧ s.writeBio = []) ⟨_, rfl, sound_new e app, rfl⟩ fun calls c hI hq => ?_
    obtain ⟨s, hs, hsound, hw⟩ := hI
    obtain ⟨s₁, hs₁, hquiet⟩ := hq
    obtain rfl : s = s₁ := Option.some.inj (hs.symm.trans hs₁)
    obtain ⟨s', hc, hsound'⟩ := hsound.call ssl httpCallback c
    have hcomplete := (complete_iff ssl httpCallback hsound hw hc).2 hquiet
    exact ⟨s', by rw [behind_concat, hs]; exact hc, hsound', hcomplete.empty⟩
  refine along_congr fun calls c halong => ?_
  obtain ⟨s, hs, hsound, hw⟩ := hempty calls halong
  obtain ⟨s', hc, -⟩ := hsound.call ssl httpCallback c
  have hstep := complete_iff ssl httpCallback hsound hw hc
  constructor
  · rintro ⟨s₁, s₁', hs₁, hc₁, hcomplete⟩
    obtain rfl := Option.some.inj (hs.symm.trans hs₁)
    obtain rfl := Option.some.inj (hc.symm.trans hc₁)
    exact ⟨s, hs, hstep.1 hcomplete⟩
  · rintro ⟨s₁, hs₁, hquiet⟩
    obtain rfl := Option.some.inj (hs.symm.trans hs₁)
    exact ⟨s, s', hs, hc, hstep.2 hquiet⟩

/-- The client's first flight, which is answered. -/
def serverHello : List Call := [.startHandshake, .onRead [22] (List.cons_ne_nil 22 []) 0]

/-- **The answer is not sent.** -/
theorem serverHello_unsent :
    ¬ Along (Completes twoFlights (fun _ resp app => (.ok resp, app)) 0 ()) serverHello := by
  intro h
  obtain ⟨s, s', hs, hc, hcomplete⟩ := h [.startHandshake] _ [] rfl
  obtain rfl := Option.some.inj hs
  obtain rfl := Option.some.inj hc
  cases hcomplete.empty

end KamaHttp.SslConnection
