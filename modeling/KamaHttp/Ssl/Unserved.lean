import KamaHttp.Ssl.SslConnection

/-!
# What a server with TLS does

`HttpServer::onConnection` starts the handshake, and then bytes arrive. Nothing in the server calls
`SslConnection::send`: the responses of `onRequest` go to the TCP connection.

* `conn_onRead`: `onRead` leaves the HTTP connection as it is, but for a shutdown.
* `unserved_of_behind`: no request is handled, and nothing is sent.
-/

namespace KamaHttp.SslConnection

variable {κ ε ρ : Type*} (ssl : OpenSsl ε) (httpCallback : HttpCallback κ) (e : ε) (app : κ)
  {s s' : SslConnection κ ε} {c : Call}

/-- The HTTP connection is left as it is, or shut down. -/
structure Spared (conn conn' : Connection κ) : Prop where
  context : conn'.context = conn.context
  input : conn'.input = conn.input
  app : conn'.app = conn.app
  log : conn'.log = conn.log ∨ conn'.log = conn.log ++ [.shutdown]

theorem Spared.refl (conn : Connection κ) : Spared conn conn := ⟨rfl, rfl, rfl, .inl rfl⟩

theorem spared_handleHandshake (s : SslConnection κ ε) :
    Spared s.conn (handleHandshake ssl s).conn := by
  unfold handleHandshake
  dsimp only
  split
  · exact .refl s.conn
  · exact .refl s.conn
  · exact .refl s.conn
  · exact ⟨rfl, rfl, rfl, .inr rfl⟩

/-- **Reading leaves the HTTP connection as it is**, however deep the calls go. -/
theorem conn_onRead {n : ℕ} {buf buf' : Bytes} {t : Timestamp} (hstate : s.state = .established)
    (hinput : s.conn.input = []) (h : onRead ssl httpCallback n buf t s = some (buf', s')) :
    s'.conn = s.conn ∧ s'.state = .established := by
  induction n generalizing s s' buf buf' with
  | zero => cases h
  | succ n ih =>
    simp only [onRead, hstate] at h
    split at h
    · cases h
      exact ⟨rfl, hstate⟩
    · obtain ⟨s₂, hmessage, heq⟩ := Option.map_eq_some_iff.1 h
      cases heq
      rw [onMessage] at hmessage
      split at hmessage
      · cases hmessage
      · rename_i s₁ hread
        -- the inner call of `onRead` has left the buffer of the plaintext empty
        obtain ⟨hconn, hstate₁⟩ := ih
          (s := (s.perform (ssl.read s.ssl s.readBio 4096)).move .decrypted
            (ssl.read s.ssl s.readBio 4096).result) hstate hinput hread
        have hempty : s₁.conn.input = [] := by
          rw [hconn]
          exact hinput
        simp only [hstate₁, hempty, ne_eq, not_true_eq_false, if_false, if_true] at hmessage
        cases hmessage
        exact ⟨hconn, hstate₁⟩

theorem conn_send (data : Bytes) (s : SslConnection κ ε) : (send ssl data s).conn = s.conn := by
  by_cases hstate : s.state = .established
  · by_cases hfailed : (ssl.write s.ssl s.readBio data (toInt32 data.length)).result ≤ 0
    · obtain ⟨text, hsend⟩ := send_of_failed ssl data hstate hfailed
      rw [hsend]
      rfl
    · rw [send_of_accepted ssl data hstate hfailed]
      rfl
  · rw [send_of_not_established ssl data hstate]
    rfl

/-- **A call leaves the HTTP connection as it is**, or shuts it down. -/
theorem spared_call (h : Sound s) (hc : call ssl httpCallback s c = some s') :
    Spared s.conn s'.conn := by
  cases c with
  | startHandshake =>
    cases hc
    exact spared_handleHandshake ssl { s with ssl := ssl.setAcceptState s.ssl }
  | onRead data _ t =>
    rcases h.state with hstate | hstate
    · rw [call, arrive_handshake ssl httpCallback data t hstate] at hc
      cases hc
      exact spared_handleHandshake ssl ((s.move .arrived data).bioWrite (s.inputBuffer ++ data))
    · obtain ⟨⟨buf, s₁⟩, hread, heq⟩ := Option.map_eq_some_iff.1 hc
      cases heq
      have hconn := (conn_onRead ssl httpCallback (s := s.move .arrived data) hstate h.input
        hread).1
      show Spared s.conn s₁.conn
      rw [hconn]
      exact .refl s.conn
  | send data =>
    cases hc
    rw [conn_send]
    exact .refl s.conn

/-- What the server does itself sends nothing. -/
theorem sent_call (h : Sound s) (hc : call ssl httpCallback s c = some s')
    (hne : ∀ data, c ≠ .send data) : s'.moved .sent = s.moved .sent := by
  cases c with
  | startHandshake =>
    cases hc
    exact (called_startHandshake ssl s).moved .sent Way.noConfusion Way.noConfusion
  | onRead data _ t =>
    rcases h.state with hstate | hstate
    · rw [call, arrive_handshake ssl httpCallback data t hstate] at hc
      cases hc
      have hcalled := called_handleHandshake ssl
        ((s.move .arrived data).bioWrite (s.inputBuffer ++ data))
      exact hcalled.moved .sent Way.noConfusion Way.noConfusion
    · obtain ⟨s₁, out, plain, harrive, hcalled, -⟩ :=
        arrive_established ssl httpCallback data t hstate h.input
      rw [call, harrive] at hc
      cases hc
      exact hcalled.moved .sent Way.noConfusion Way.noConfusion
  | send data => exact absurd rfl (hne data)

/-- **Nothing is served**: the handlers have not been called, nothing has been parsed, and nothing
has been done on the HTTP connection but to shut it down. -/
structure Unserved (app : κ) (s : SslConnection κ ε) : Prop where
  app : s.conn.app = app
  context : s.conn.context = HttpContext.new
  parsed : s.moved .parsed = []
  log : ∀ a ∈ s.conn.log, a = .shutdown

/-- **Nothing is sent**: all that OpenSSL has put out is in `writeBio_`. -/
structure Unsent (s : SslConnection κ ε) : Prop where
  sent : s.moved .sent = []
  stranded : s.writeBio = s.moved .writeBio

theorem Unserved.of_spared (hs : Unserved app s) (h : Spared s.conn s'.conn) (hsound : Sound s') :
    Unserved app s' := by
  refine ⟨h.app.trans hs.app, h.context.trans hs.context, hsound.parsed, fun a ha => ?_⟩
  rcases h.log with hsame | hshut
  · rw [hsame] at ha
    exact hs.log a ha
  · rw [hshut, List.mem_append, List.mem_singleton] at ha
    exact ha.elim (hs.log a) id

/-- **A server with TLS serves nothing.** In every run of a connection with TLS, whatever OpenSSL
and the handlers do, no request is parsed or handled, and no response is sent. If nothing but the
server uses the connection, nothing is sent at all: the answers of the handshake stay in
`writeBio_`. -/
theorem unserved_of_behind (calls : List Call) :
    ∃ s, behind ssl httpCallback e app calls = some s ∧ Unserved app s ∧
      ((∀ data, Call.send data ∉ calls) → Unsent s) := by
  suffices ∃ s, behind ssl httpCallback e app calls = some s ∧ Sound s ∧ Unserved app s ∧
      ((∀ data, Call.send data ∉ calls) → s.moved .sent = []) by
    obtain ⟨s, hs, hsound, hunserved, hsent⟩ := this
    refine ⟨s, hs, hunserved, fun hcalls => ⟨hsent hcalls, ?_⟩⟩
    rw [hsound.output, hsent hcalls, List.nil_append]
  induction calls using List.reverseRecOn with
  | nil =>
    exact ⟨_, rfl, sound_new e app, ⟨rfl, rfl, rfl, fun a ha => by cases ha⟩, fun _ => rfl⟩
  | append_singleton calls c ih =>
    obtain ⟨s, hs, hsound, hunserved, hsent⟩ := ih
    obtain ⟨s', hs', hsound'⟩ := hsound.call ssl httpCallback c
    have hspared := spared_call ssl httpCallback hsound hs'
    refine ⟨s', ?_, hsound', ?_, fun hcalls => ?_⟩
    · rw [behind_concat, hs]
      exact hs'
    · exact hunserved.of_spared app hspared hsound'
    · rw [sent_call ssl httpCallback hsound hs' fun data hc => hcalls data (by simp [hc])]
      exact hsent fun data hmem => hcalls data (List.mem_append_left _ hmem)

example : (behind twoFlights (fun _ resp n => (.ok resp, n + 1)) 0 0
    [.startHandshake, .onRead [22] (by decide) 1, .onRead [22] (by decide) 2,
      .onRead (bytes "GET / HTTP/1.1\r\n\r\n") (by decide) 3]).map
        (fun s => (s.state, s.conn.app, s.moved .sent, s.writeBio)) =
    some (.established, 0, [], [22]) := by
  decide +kernel

end KamaHttp.SslConnection
