import KamaHttp.Ssl.SslConnection

/-!
# What arrives on a connection with TLS

During the handshake `onRead` writes what has arrived to `readBio_`. On an established connection
it does not: the bytes stay in the input buffer of the TCP connection, and what `SSL_read` returns
goes round through `onMessage` and is dropped.

* `parsed_eq_nil`: no byte is ever handed to `parseRequest`.
* `intact_iff`: in which runs every byte goes on.
* `withApplicationData`: a handshake, and a byte that arrives behind it.
-/

namespace KamaHttp.SslConnection

variable {κ ε : Type*} (ssl : OpenSsl ε) (httpCallback : HttpCallback κ) (e : ε) (app : κ)
  {s s' : SslConnection κ ε} {c : Call}

/-- **Every byte goes on**: what has been handed to `onRead` has been appended to `readBio_`, and
what `SSL_read` has returned has been handed to `parseRequest`, once and in order. -/
structure Intact (s : SslConnection κ ε) : Prop where
  arrived : s.moved .arrived = s.moved .readBio
  plaintext : s.moved .decrypted = s.moved .parsed

/-- Bytes arrive only as long as the handshake goes on. -/
def DuringHandshake (before : List Call) (c : Call) : Prop :=
  ∀ data ne t, c = .onRead data ne t →
    ∃ s, behind ssl httpCallback e app before = some s ∧ s.state = .handshake

/-- **No byte is ever handed to `parseRequest`**, in any run. -/
theorem parsed_eq_nil (calls : List Call) :
    ∃ s, behind ssl httpCallback e app calls = some s ∧ s.moved .parsed = [] := by
  obtain ⟨s, hs, hsound⟩ := sound_of_behind ssl httpCallback e app calls
  exact ⟨s, hs, hsound.parsed⟩

theorem intact_iff_of_sound (h : Sound s) :
    Intact s ↔ s.inputBuffer = [] ∧ s.moved .decrypted = [] := by
  constructor
  · rintro ⟨harrived, hplaintext⟩
    rw [h.arrived, List.append_right_eq_self] at harrived
    exact ⟨harrived, hplaintext.trans h.parsed⟩
  · rintro ⟨hbuffer, hdecrypted⟩
    exact ⟨by rw [h.arrived, hbuffer, List.append_nil], by rw [hdecrypted, h.parsed]⟩

/-- Sending touches neither. -/
theorem inbound_send (data : Bytes) (s : SslConnection κ ε) :
    (send ssl data s).inputBuffer = s.inputBuffer ∧
      (send ssl data s).moved .decrypted = s.moved .decrypted := by
  by_cases hstate : s.state = .established
  · have hcalled := called_perform (ssl.write s.ssl s.readBio data (toInt32 data.length)) s
    have hdecrypted := hcalled.decrypted
    rw [List.append_nil] at hdecrypted
    by_cases hfailed : (ssl.write s.ssl s.readBio data (toInt32 data.length)).result ≤ 0
    · obtain ⟨text, hsend⟩ := send_of_failed ssl data hstate hfailed
      rw [hsend]
      exact ⟨hcalled.inputBuffer, hdecrypted⟩
    · rw [send_of_accepted ssl data hstate hfailed, moved_move, if_neg Way.noConfusion]
      exact ⟨hcalled.inputBuffer, hdecrypted⟩
  · rw [send_of_not_established ssl data hstate]
    exact ⟨rfl, rfl⟩

/-- **A call lets every byte go on exactly if none arrives at an established connection.** -/
theorem intact_call_iff (h : Sound s) (hi : Intact s)
    (hc : call ssl httpCallback s c = some s') :
    Intact s' ↔ ∀ data ne t, c = .onRead data ne t → s.state = .handshake := by
  rw [intact_iff_of_sound (h.of_call ssl httpCallback hc)]
  obtain ⟨hbuffer, hdecrypted⟩ := (intact_iff_of_sound h).1 hi
  cases c with
  | startHandshake =>
    obtain rfl := Option.some.inj hc
    have hcalled := called_startHandshake ssl s
    refine iff_of_true ⟨hcalled.inputBuffer.trans hbuffer, ?_⟩ fun _ _ _ hc => by cases hc
    rw [hcalled.decrypted, hdecrypted, List.append_nil]
  | send data =>
    obtain rfl := Option.some.inj hc
    obtain ⟨hinput, hplain⟩ := inbound_send ssl data s
    exact iff_of_true ⟨hinput.trans hbuffer, hplain.trans hdecrypted⟩ fun _ _ _ hc => by cases hc
  | onRead data ne t =>
    rcases h.state with hstate | hstate
    · refine iff_of_true ?_ fun _ _ _ _ => hstate
      obtain rfl :=
        Option.some.inj ((arrive_handshake ssl httpCallback data t hstate).symm.trans hc)
      have hcalled := called_handleHandshake ssl
        ((s.move .arrived data).bioWrite (s.inputBuffer ++ data))
      refine ⟨rfl, ?_⟩
      show (handleHandshake ssl _).moved .decrypted = []
      rw [hcalled.decrypted, List.append_nil]
      simp [bioWrite, move, hdecrypted]
    · obtain ⟨s₁, out, plain, harrive, -⟩ :=
        arrive_established ssl httpCallback data t hstate h.input
      obtain rfl := Option.some.inj (harrive.symm.trans hc)
      refine iff_of_false (fun hnil => ?_) fun hall => ?_
      · exact ne (List.append_eq_nil_iff.1 hnil.1).2
      · have hs := hall data ne t rfl
        rw [hstate] at hs
        cases hs

/-- **In which runs every byte goes on**: in those in which none arrives at an established
connection. -/
theorem intact_iff (calls : List Call) :
    (∀ before, before <+: calls →
        ∃ s, behind ssl httpCallback e app before = some s ∧ Intact s) ↔
      Along (DuringHandshake ssl httpCallback e app) calls := by
  refine along_iff ⟨_, rfl, ⟨rfl, rfl⟩⟩ fun calls c h => ?_
  obtain ⟨s, hs, hi⟩ := h
  obtain ⟨s₁, hs₁, hsound⟩ := sound_of_behind ssl httpCallback e app calls
  obtain rfl : s = s₁ := Option.some.inj (hs.symm.trans hs₁)
  obtain ⟨s', hc, -⟩ := hsound.call ssl httpCallback c
  have hstep := intact_call_iff ssl httpCallback hsound hi hc
  rw [behind_concat, hs]
  simp only [Option.bind_some, hc, Option.some.injEq, exists_eq_left', hstep, DuringHandshake, hs]

/-- The client's two flights, and a byte behind them. -/
def withApplicationData : List Call :=
  [.startHandshake, .onRead [1] (List.cons_ne_nil 1 []) 0, .onRead [2] (List.cons_ne_nil 2 []) 0,
    .onRead [71] (List.cons_ne_nil 71 []) 0]

/-- **The byte is not written to `readBio_`.** -/
theorem withApplicationData_stranded :
    ∃ s, behind twoFlights (fun _ resp app => (.ok resp, app)) 0 () withApplicationData = some s ∧
      s.moved .arrived = [1, 2, 71] ∧ s.moved .readBio = [1, 2] ∧ ¬ Intact s := by
  obtain ⟨s, hs, harrived, hwritten⟩ : ∃ s,
      behind twoFlights (fun _ resp app => (.ok resp, app)) 0 () withApplicationData = some s ∧
        s.moved .arrived = [1, 2, 71] ∧ s.moved .readBio = [1, 2] := ⟨_, rfl, rfl, rfl⟩
  refine ⟨s, hs, harrived, hwritten, fun h => ?_⟩
  have hsame := h.arrived
  rw [harrived, hwritten] at hsame
  cases hsame

end KamaHttp.SslConnection
