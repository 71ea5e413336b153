import KamaHttp.Foundations.Machine
import KamaHttp.Http.HttpServer

/-!
# Connections with TLS

`SslConnection.cpp`, and the part of `HttpServer::onMessage` that is for connections with TLS. What
OpenSSL does is a parameter: a call of it takes bytes from the front of `readBio_`, appends bytes
to `writeBio_` and returns a result. The totals of the bytes that have gone each way are kept
beside the state.

* `onRead_established`: reading calls `SSL_read` until nothing comes out, and does nothing else.
* `flush_eq`: flushing sends all that is in `writeBio_`.
* `sound_of_behind`: in every run the bytes in the queues are those that are missing further on.
-/

namespace KamaHttp

open Loop

/-- What a call of OpenSSL returns, takes from `readBio_`, appends to `writeBio_` and leaves. -/
structure SslEffect (ε ρ : Type*) where
  result : ρ
  taken : ℕ
  output : Bytes
  state : ε

/-- The result of `SSL_do_handshake` with that of `SSL_get_error`. -/
inductive Handshake
  | done
  | wantRead
  | wantWrite
  | failed (errBuf : Bytes)

/-- OpenSSL, with its states. The plaintext that it can still return is bounded by what has been
written to `readBio_`. -/
structure OpenSsl (ε : Type*) where
  setAcceptState : ε → ε
  doHandshake : ε → Bytes → SslEffect ε Handshake
  /-- `SSL_read` of a number of bytes at most; it may return none. -/
  read : ε → Bytes → ℕ → SslEffect ε Bytes
  /-- `SSL_write` of a buffer and its length as an `int`. -/
  write : ε → Bytes → Bytes → ℤ → SslEffect ε ℤ
  errorString : ε → ℤ → Bytes
  plaintext : ε → Bytes → ℕ
  read_le : ∀ e bio n, (read e bio n).result.length +
    plaintext (read e bio n).state (bio.drop (read e bio n).taken) ≤ plaintext e bio

/-- An OpenSSL with a handshake of two flights, each of which answers in full, and with records
that are their plaintext. -/
def twoFlights : OpenSsl ℕ where
  setAcceptState := id
  doHandshake e bio :=
    if bio = [] then ⟨.wantRead, 0, [], e⟩
    else if e = 0 then ⟨.wantRead, bio.length, [22], 1⟩
    else ⟨.done, bio.length, [], e⟩
  read e bio n := ⟨bio.take n, n, [], e⟩
  write e _ data num := ⟨min num 16384, 0, data.take (min num 16384).toNat, e⟩
  errorString _ _ := []
  plaintext _ bio := bio.length
  read_le e bio n := by
    have htake : (bio.take n).length + (bio.drop n).length = bio.length := by
      rw [← List.length_append, List.take_append_drop]
    exact htake.le

inductive SSLState
  | handshake
  | established
  | shutdown
  | error
  deriving DecidableEq

/-- The ways of bytes: to `onRead`, to `readBio_`, out of `SSL_read`, to `parseRequest`, to
`writeBio_` and to `conn_->send`. -/
inductive Way
  | arrived
  | readBio
  | decrypted
  | parsed
  | writeBio
  | sent
  deriving DecidableEq

/-- A connection, with the input buffer of the TCP connection. The input of `conn` is what
`parseRequest` would read, `decryptedBuffer_`. Beside the state are the bytes that have gone each
way, what `SSL_write` has accepted and the errors that have been logged. -/
structure SslConnection (κ ε : Type*) where
  ssl : ε
  state : SSLState
  readBio : Bytes
  writeBio : Bytes
  inputBuffer : Bytes
  conn : Connection κ
  moved : Way → Bytes
  accepted : List ℤ
  errors : List Bytes

namespace SslConnection

variable {κ ε ρ : Type*} (ssl : OpenSsl ε) (httpCallback : HttpCallback κ)

def new (e : ε) (app : κ) : SslConnection κ ε :=
  ⟨e, .handshake, [], [], [], .new app, fun _ => [], [], []⟩

/-- Bytes go a way. -/
def move (w : Way) (data : Bytes) (s : SslConnection κ ε) : SslConnection κ ε :=
  { s with moved := Function.update s.moved w (s.moved w ++ data) }

def logError (text : Bytes) (s : SslConnection κ ε) : SslConnection κ ε :=
  { s with errors := s.errors ++ [text] }

/-- What a call of OpenSSL leaves. -/
def perform (r : SslEffect ε ρ) (s : SslConnection κ ε) : SslConnection κ ε :=
  move .writeBio r.output
    { s with
      ssl := r.state
      readBio := s.readBio.drop r.taken
      writeBio := s.writeBio ++ r.output }

/-- `BIO_write` on `readBio_`. -/
def bioWrite (buf : Bytes) (s : SslConnection κ ε) : SslConnection κ ε :=
  move .readBio buf { s with readBio := s.readBio ++ buf }

def handleHandshake (s : SslConnection κ ε) : SslConnection κ ε :=
  let r := ssl.doHandshake s.ssl s.readBio
  let s := s.perform r
  match r.result with
  | .done => { s with state := .established }
  | .wantRead => s
  | .wantWrite => s
  | .failed errBuf =>
    let s := s.logError (bytes "SSL handshake failed: " ++ errBuf)
    { s with conn := s.conn.record [.shutdown] }

def startHandshake (s : SslConnection κ ε) : SslConnection κ ε :=
  handleHandshake ssl { s with ssl := ssl.setAcceptState s.ssl }

/-! ## Sending -/

/-- An iteration of the loop that sends what is in `writeBio_`. -/
def flushIter (s : SslConnection κ ε) : Step (SslConnection κ ε) (SslConnection κ ε) :=
  let pending := s.writeBio.length
  if 0 < pending then
    let n := min pending 4096
    .next (move .sent (s.writeBio.take n) { s with writeBio := s.writeBio.drop n })
  else .stop s

/-- The loop, which goes round at most once for each byte. -/
def flush (s : SslConnection κ ε) : SslConnection κ ε :=
  (Loop.run flushIter (s.writeBio.length + 1) s).getD s

def send (data : Bytes) (s : SslConnection κ ε) : SslConnection κ ε :=
  if s.state ≠ .established then
    s.logError (bytes "Cannot send data before SSL handshake is complete")
  else
    let r := ssl.write s.ssl s.readBio data (toInt32 data.length)
    let s := s.perform r
    if r.result ≤ 0 then
      s.logError (bytes "SSL_write failed: " ++ ssl.errorString s.ssl r.result)
    else flush { s with accepted := s.accepted ++ [r.result] }

/-! ## Reading -/

/-- `HttpServer::onMessage` on a connection with TLS, given the `onRead` that it calls. -/
def onMessage
    (onRead : Bytes → Timestamp → SslConnection κ ε → Option (Bytes × SslConnection κ ε))
    (buf : Bytes) (receiveTime : Timestamp) (s : SslConnection κ ε) :
    Option (SslConnection κ ε) :=
  match onRead buf receiveTime s with
  | none => none
  | some (_, s) =>
    if s.state ≠ .established then some s
    else if s.conn.input = [] then some s
    else
      let s := s.move .parsed s.conn.input
      (HttpServer.onMessage httpCallback s.conn ([], receiveTime)).map fun conn =>
        { s with conn := conn }

/-- `onRead` with the buffer that it is given and leaves. Its callback is `onMessage`, which calls
`onRead` again; the number bounds how deep the calls may go. -/
def onRead : ℕ → Bytes → Timestamp → SslConnection κ ε → Option (Bytes × SslConnection κ ε)
  | 0, _, _, _ => none
  | n + 1, buf, receiveTime, s =>
    match s.state with
    | .handshake => some ([], handleHandshake ssl (s.bioWrite buf))
    | .established =>
      let r := ssl.read s.ssl s.readBio 4096
      let s := s.perform r
      if r.result = [] then some (buf, s)
      else
        let s := s.move .decrypted r.result
        (onMessage httpCallback (onRead n) r.result receiveTime s).map fun s => (buf, s)
    | .shutdown => some (buf, s)
    | .error => some (buf, s)

/-- Bytes arrive at the TCP connection, which calls `onRead` on its input buffer. -/
def arrive (data : Bytes) (receiveTime : Timestamp) (s : SslConnection κ ε) :
    Option (SslConnection κ ε) :=
  let s := s.move .arrived data
  let depth := ssl.plaintext s.ssl s.readBio + 1
  (onRead ssl httpCallback depth (s.inputBuffer ++ data) receiveTime s).map fun r =>
    { r.2 with inputBuffer := r.1 }

/-! ## Runs -/

/-- The calls: the server starts the handshake, bytes arrive (some each time), and the server
sends. -/
inductive Call
  | startHandshake
  | onRead (data : Bytes) (ne : data ≠ []) (receiveTime : Timestamp)
  | send (data : Bytes)

def call (s : SslConnection κ ε) : Call → Option (SslConnection κ ε)
  | .startHandshake => some (startHandshake ssl s)
  | .onRead data _ receiveTime => arrive ssl httpCallback data receiveTime s
  | .send data => some (send ssl data s)

/-- The state behind the calls on a new connection. -/
def behind (e : ε) (app : κ) (calls : List Call) : Option (SslConnection κ ε) :=
  calls.foldlM (call ssl httpCallback) (new e app)

theorem behind_concat (e : ε) (app : κ) (calls : List Call) (c : Call) :
    behind ssl httpCallback e app (calls ++ [c]) =
      (behind ssl httpCallback e app calls).bind fun s => call ssl httpCallback s c := by
  rw [behind, List.foldlM_append]
  exact congrArg _ (funext fun s => bind_pure _)

/-! ## What the calls do -/

section Fields

variable (w w' : Way) (data : Bytes) (s : SslConnection κ ε)

@[simp] theorem ssl_move : (s.move w data).ssl = s.ssl := rfl
@[simp] theorem state_move : (s.move w data).state = s.state := rfl
@[simp] theorem readBio_move : (s.move w data).readBio = s.readBio := rfl
@[simp] theorem writeBio_move : (s.move w data).writeBio = s.writeBio := rfl
@[simp] theorem inputBuffer_move : (s.move w data).inputBuffer = s.inputBuffer := rfl

theorem moved_move :
    (s.move w data).moved w' = if w' = w then s.moved w ++ data else s.moved w' :=
  Function.update_apply ..

theorem move_nil : s.move w [] = s := by
  have h : Function.update s.moved w (s.moved w ++ []) = s.moved := by
    rw [List.append_nil, Function.update_eq_self]
  rw [move, h]

theorem move_move (data' : Bytes) : (s.move w data).move w data' = s.move w (data ++ data') := by
  simp only [move, Function.update_self, Function.update_idem, List.append_assoc]

end Fields

variable {s s' : SslConnection κ ε}

/-- **Flushing sends all that is in `writeBio_`**, in order. -/
theorem flush_eq (s : SslConnection κ ε) :
    flush s = move .sent s.writeBio { s with writeBio := [] } := by
  have hreturns : ∀ n (s : SslConnection κ ε), s.writeBio.length = n →
      Returns flushIter s (move .sent s.writeBio { s with writeBio := [] }) := by
    intro n
    induction n using Nat.strong_induction_on with
    | _ n ih =>
      intro s hn
      by_cases hpos : 0 < s.writeBio.length
      · have hnext : flushIter s = .next (move .sent (s.writeBio.take (min s.writeBio.length 4096))
            { s with writeBio := s.writeBio.drop (min s.writeBio.length 4096) }) := if_pos hpos
        refine .next hnext ?_
        have hlt : (s.writeBio.drop (min s.writeBio.length 4096)).length < n := by
          rw [List.length_drop]
          omega
        have h := ih _ hlt (move .sent (s.writeBio.take (min s.writeBio.length 4096))
          { s with writeBio := s.writeBio.drop (min s.writeBio.length 4096) }) rfl
        have heq : move .sent (s.writeBio.drop (min s.writeBio.length 4096))
            (move .sent (s.writeBio.take (min s.writeBio.length 4096))
              { s with writeBio := [] }) = move .sent s.writeBio { s with writeBio := [] } := by
          rw [move_move, List.take_append_drop]
        exact heq ▸ h
      · have hnil : s.writeBio = [] := List.eq_nil_of_length_eq_zero (by omega)
        have heq : move .sent s.writeBio { s with writeBio := [] } = s := by
          rw [hnil, move_nil, ← hnil]
        rw [heq]
        exact .stop (if_neg hpos)
  have hrun : Loop.run flushIter (s.writeBio.length + 1) s =
      some (move .sent s.writeBio { s with writeBio := [] }) := by
    refine (run_eq_some_iff (fun _ => True) (fun s => s.writeBio.length) ?_ trivial
      (Nat.lt_succ_self _)).2 (hreturns _ s rfl)
    intro t t' _ ht
    unfold flushIter at ht
    dsimp only at ht
    split at ht
    · cases ht
      refine ⟨trivial, ?_⟩
      rw [writeBio_move, List.length_drop]
      omega
    · cases ht
  rw [flush, hrun]
  rfl

/-- OpenSSL has been called. It has appended `out` to `writeBio_`, `plain` has come out of
`SSL_read`, and nothing else has changed but the state of the connection. -/
structure Called (s s' : SslConnection κ ε) (out plain : Bytes) : Prop where
  inputBuffer : s'.inputBuffer = s.inputBuffer
  input : s'.conn.input = s.conn.input
  writeBio : s'.writeBio = s.writeBio ++ out
  output : s'.moved .writeBio = s.moved .writeBio ++ out
  moved : ∀ w, w ≠ .writeBio → w ≠ .decrypted → s'.moved w = s.moved w
  decrypted : s'.moved .decrypted = s.moved .decrypted ++ plain
  state : s'.state = s.state ∨ s'.state = .established

theorem called_perform (r : SslEffect ε ρ) (s : SslConnection κ ε) :
    Called s (s.perform r) r.output [] where
  inputBuffer := rfl
  input := rfl
  writeBio := rfl
  output := by rw [perform, moved_move, if_pos rfl]
  moved w hw _ := by rw [perform, moved_move, if_neg hw]
  decrypted := by rw [perform, moved_move, if_neg Way.noConfusion, List.append_nil]
  state := .inl rfl

theorem called_handleHandshake (s : SslConnection κ ε) :
    Called s (handleHandshake ssl s) (ssl.doHandshake s.ssl s.readBio).output [] := by
  have h := called_perform (ssl.doHandshake s.ssl s.readBio) s
  unfold handleHandshake
  dsimp only
  split
  · exact ⟨h.inputBuffer, h.input, h.writeBio, h.output, h.moved, h.decrypted, .inr rfl⟩
  · exact h
  · exact h
  · exact ⟨h.inputBuffer, h.input, h.writeBio, h.output, h.moved, h.decrypted, h.state⟩

/-- None of the calls of `SSL_read`, up to the one that returns nothing, appends to `writeBio_`. -/
inductive ReadsQuietly : ε → Bytes → Prop
  | nothing {e : ε} {bio : Bytes} (h : (ssl.read e bio 4096).result = [])
      (ho : (ssl.read e bio 4096).output = []) : ReadsQuietly e bio
  | more {e : ε} {bio : Bytes} (h : (ssl.read e bio 4096).result ≠ [])
      (ho : (ssl.read e bio 4096).output = [])
      (hr : ReadsQuietly (ssl.read e bio 4096).state (bio.drop (ssl.read e bio 4096).taken)) :
      ReadsQuietly e bio

theorem readsQuietly_of_nothing {e : ε} {bio : Bytes} (h : (ssl.read e bio 4096).result = []) :
    ReadsQuietly ssl e bio ↔ (ssl.read e bio 4096).output = [] := by
  refine ⟨fun hr => ?_, .nothing h⟩
  cases hr with
  | nothing _ ho => exact ho
  | more hne _ _ => exact absurd h hne

theorem readsQuietly_of_more {e : ε} {bio : Bytes} (h : (ssl.read e bio 4096).result ≠ []) :
    ReadsQuietly ssl e bio ↔ (ssl.read e bio 4096).output = [] ∧
      ReadsQuietly ssl (ssl.read e bio 4096).state
        (bio.drop (ssl.read e bio 4096).taken) := by
  refine ⟨fun hr => ?_, fun ⟨ho, hr⟩ => .more h ho hr⟩
  cases hr with
  | nothing hnil _ => exact absurd hnil h
  | more _ ho hr => exact ⟨ho, hr⟩

/-- **Reading an established connection** calls `SSL_read` until nothing comes out. What comes out
is handed to `onMessage`, which reads again and goes no further, as nothing is in
`decryptedBuffer_`. -/
theorem onRead_established {n : ℕ} (buf : Bytes) (t : Timestamp) (hstate : s.state = .established)
    (hinput : s.conn.input = []) (hn : ssl.plaintext s.ssl s.readBio < n) :
    ∃ s' out plain, onRead ssl httpCallback n buf t s = some (buf, s') ∧ Called s s' out plain ∧
      (out = [] ↔ ReadsQuietly ssl s.ssl s.readBio) := by
  induction n generalizing s buf with
  | zero => exact absurd hn (Nat.not_lt_zero _)
  | succ n ih =>
    have hcalled := called_perform (ssl.read s.ssl s.readBio 4096) s
    have hle := ssl.read_le s.ssl s.readBio 4096
    simp only [onRead, hstate]
    by_cases hnil : (ssl.read s.ssl s.readBio 4096).result = []
    · rw [if_pos hnil]
      exact ⟨_, _, _, rfl, hcalled, (readsQuietly_of_nothing ssl hnil).symm⟩
    · rw [if_neg hnil]
      have hpos := List.length_pos_iff.2 hnil
      obtain ⟨s₂, out, plain, honread, hcalled₂, hout⟩ :=
        ih (ssl.read s.ssl s.readBio 4096).result
          (s := (s.perform (ssl.read s.ssl s.readBio 4096)).move .decrypted
            (ssl.read s.ssl s.readBio 4096).result) hstate hinput (by
              show ssl.plaintext (ssl.read s.ssl s.readBio 4096).state
                (s.readBio.drop (ssl.read s.ssl s.readBio 4096).taken) < n
              omega)
      have hstate₂ : s₂.state = .established := by
        rcases hcalled₂.state with h | h
        · exact h.trans hstate
        · exact h
      have hinput₂ : s₂.conn.input = [] := hcalled₂.input.trans hinput
      refine ⟨s₂, (ssl.read s.ssl s.readBio 4096).output ++ out,
        (ssl.read s.ssl s.readBio 4096).result ++ plain, ?_, ?_, ?_⟩
      · simp [onMessage, honread, hstate₂, hinput₂]
      · exact {
          inputBuffer := hcalled₂.inputBuffer
          input := hcalled₂.input
          writeBio := by rw [hcalled₂.writeBio, writeBio_move, hcalled.writeBio, List.append_assoc]
          output := by
            rw [hcalled₂.output, moved_move, if_neg Way.noConfusion, hcalled.output,
              List.append_assoc]
          moved := fun w hw hd => by
            rw [hcalled₂.moved w hw hd, moved_move, if_neg hd, hcalled.moved w hw hd]
          decrypted := by
            rw [hcalled₂.decrypted, moved_move, if_pos rfl, hcalled.decrypted, List.append_nil,
              List.append_assoc]
          state := .inr hstate₂ }
      · rw [List.append_eq_nil_iff, hout, readsQuietly_of_more ssl hnil]
        rfl

theorem called_startHandshake (s : SslConnection κ ε) :
    Called s (startHandshake ssl s)
      (ssl.doHandshake (ssl.setAcceptState s.ssl) s.readBio).output [] := by
  have h := called_handleHandshake ssl { s with ssl := ssl.setAcceptState s.ssl }
  exact ⟨h.inputBuffer, h.input, h.writeBio, h.output, h.moved, h.decrypted, h.state⟩

/-- Bytes that arrive during the handshake are written to `readBio_`. -/
theorem arrive_handshake (data : Bytes) (t : Timestamp) (hstate : s.state = .handshake) :
    arrive ssl httpCallback data t s =
      some { handleHandshake ssl ((s.move .arrived data).bioWrite (s.inputBuffer ++ data)) with
        inputBuffer := [] } := by
  simp only [arrive, onRead, state_move, hstate]
  rfl

/-- Bytes that arrive at an established connection stay in the input buffer. -/
theorem arrive_established (data : Bytes) (t : Timestamp) (hstate : s.state = .established)
    (hinput : s.conn.input = []) :
    ∃ s₁ out plain, arrive ssl httpCallback data t s =
        some { s₁ with inputBuffer := s.inputBuffer ++ data } ∧
      Called (s.move .arrived data) s₁ out plain ∧
      (out = [] ↔ ReadsQuietly ssl s.ssl s.readBio) := by
  have hn : ssl.plaintext s.ssl s.readBio < ssl.plaintext s.ssl s.readBio + 1 :=
    Nat.lt_succ_self _
  obtain ⟨s₁, out, plain, honread, hcalled, hout⟩ :=
    onRead_established ssl httpCallback (s := s.move .arrived data) (s.inputBuffer ++ data) t
      hstate hinput hn
  refine ⟨s₁, out, plain, ?_, hcalled, hout⟩
  simp only [arrive, ssl_move, readBio_move, inputBuffer_move, honread, Option.map_some]

theorem send_of_not_established (data : Bytes) (hstate : s.state ≠ .established) :
    send ssl data s = s.logError (bytes "Cannot send data before SSL handshake is complete") := by
  rw [send, if_pos hstate]

/-- What a failed `SSL_write` has appended to `writeBio_` stays there. -/
theorem send_of_failed (data : Bytes) (hstate : s.state = .established)
    (h : (ssl.write s.ssl s.readBio data (toInt32 data.length)).result ≤ 0) :
    ∃ text, send ssl data s =
      (s.perform (ssl.write s.ssl s.readBio data (toInt32 data.length))).logError text := by
  rw [send, if_neg (not_not.2 hstate)]
  dsimp only
  rw [if_pos h]
  exact ⟨_, rfl⟩

/-- What `SSL_write` has accepted is flushed. -/
theorem send_of_accepted (data : Bytes) (hstate : s.state = .established)
    (h : ¬ (ssl.write s.ssl s.readBio data (toInt32 data.length)).result ≤ 0) :
    let r := ssl.write s.ssl s.readBio data (toInt32 data.length)
    send ssl data s = move .sent (s.writeBio ++ r.output)
      { s.perform r with accepted := s.accepted ++ [r.result], writeBio := [] } := by
  intro r
  rw [send, if_neg (not_not.2 hstate)]
  dsimp only
  rw [if_neg h, flush_eq]
  rfl

/-! ## What holds in every run -/

/-- **The bytes in a queue are those that are missing further on**: what has arrived is in
`readBio_`'s total or in the input buffer, and what OpenSSL has put out has been sent or is in
`writeBio_`. No byte has been handed to `parseRequest`. -/
structure Sound (s : SslConnection κ ε) : Prop where
  state : s.state = .handshake ∨ s.state = .established
  input : s.conn.input = []
  parsed : s.moved .parsed = []
  arrived : s.moved .arrived = s.moved .readBio ++ s.inputBuffer
  handshake : s.state = .handshake → s.inputBuffer = [] ∧ s.moved .decrypted = []
  output : s.moved .writeBio = s.moved .sent ++ s.writeBio

theorem sound_new (e : ε) (app : κ) : Sound (new e app) :=
  ⟨.inl rfl, rfl, rfl, rfl, fun _ => ⟨rfl, rfl⟩, rfl⟩

/-- A call of OpenSSL that is no reading keeps the connection sound. -/
theorem Sound.of_called {out : Bytes} (h : Sound s) (hc : Called s s' out []) : Sound s' where
  state := by
    rcases hc.state with h' | h'
    · rw [h']
      exact h.state
    · exact .inr h'
  input := hc.input.trans h.input
  parsed := (hc.moved .parsed Way.noConfusion Way.noConfusion).trans h.parsed
  arrived := by
    rw [hc.moved _ Way.noConfusion Way.noConfusion, hc.moved _ Way.noConfusion Way.noConfusion,
      hc.inputBuffer]
    exact h.arrived
  handshake hs := by
    have hstate : s.state = .handshake := by
      rcases hc.state with h' | h'
      · rw [← h', hs]
      · rw [hs] at h'
        cases h'
    rw [hc.inputBuffer, hc.decrypted, List.append_nil]
    exact h.handshake hstate
  output := by
    rw [hc.output, hc.moved _ Way.noConfusion Way.noConfusion, hc.writeBio, h.output,
      List.append_assoc]

theorem Sound.arrive_handshake (h : Sound s) (data : Bytes) (hstate : s.state = .handshake) :
    Sound { handleHandshake ssl ((s.move .arrived data).bioWrite (s.inputBuffer ++ data)) with
      inputBuffer := [] } := by
  obtain ⟨hempty, hdecrypted⟩ := h.handshake hstate
  have hwritten : Sound ((s.move .arrived data).bioWrite (s.inputBuffer ++ data)) := by
    refine ⟨h.state, h.input, ?_, ?_, fun _ => ⟨hempty, ?_⟩, ?_⟩
    · simp [bioWrite, move, h.parsed]
    · simp [bioWrite, move, h.arrived, hempty]
    · simp [bioWrite, move, hdecrypted]
    · simp [bioWrite, move, h.output]
  have hcalled := called_handleHandshake ssl
    ((s.move .arrived data).bioWrite (s.inputBuffer ++ data))
  have hsound := hwritten.of_called hcalled
  have harrived := hsound.arrived
  rw [hcalled.inputBuffer.trans hempty] at harrived
  exact ⟨hsound.state, hsound.input, hsound.parsed, harrived,
    fun hs => ⟨rfl, (hsound.handshake hs).2⟩, hsound.output⟩

theorem Sound.send (h : Sound s) (data : Bytes) : Sound (send ssl data s) := by
  by_cases hstate : s.state = .established
  · have hsound : Sound (s.perform (ssl.write s.ssl s.readBio data (toInt32 data.length))) :=
      h.of_called (called_perform _ s)
    by_cases hfailed : (ssl.write s.ssl s.readBio data (toInt32 data.length)).result ≤ 0
    · obtain ⟨text, hsend⟩ := send_of_failed ssl data hstate hfailed
      rw [hsend]
      exact ⟨hsound.state, hsound.input, hsound.parsed, hsound.arrived, hsound.handshake,
        hsound.output⟩
    · rw [send_of_accepted ssl data hstate hfailed]
      refine ⟨hsound.state, hsound.input, hsound.parsed, hsound.arrived, hsound.handshake, ?_⟩
      have houtput := hsound.output
      simpa [move, perform] using houtput
  · rw [send_of_not_established ssl data hstate]
    exact ⟨h.state, h.input, h.parsed, h.arrived, h.handshake, h.output⟩

/-- **Every call returns, and keeps the connection sound.** -/
theorem Sound.call (h : Sound s) (c : Call) :
    ∃ s', call ssl httpCallback s c = some s' ∧ Sound s' := by
  cases c with
  | startHandshake => exact ⟨_, rfl, h.of_called (called_startHandshake ssl s)⟩
  | onRead data _ t =>
    rcases h.state with hstate | hstate
    · exact ⟨_, SslConnection.arrive_handshake ssl httpCallback data t hstate,
        h.arrive_handshake ssl data hstate⟩
    · obtain ⟨s₁, out, plain, harrive, hcalled, -⟩ :=
        arrive_established ssl httpCallback data t hstate h.input
      have hstate₁ : s₁.state = .established := hcalled.state.elim (·.trans hstate) id
      refine ⟨_, harrive, ⟨.inr hstate₁, hcalled.input.trans h.input, ?_, ?_, ?_, ?_⟩⟩
      · exact (hcalled.moved _ Way.noConfusion Way.noConfusion).trans h.parsed
      · show s₁.moved .arrived = s₁.moved .readBio ++ (s.inputBuffer ++ data)
        rw [hcalled.moved _ Way.noConfusion Way.noConfusion,
          hcalled.moved _ Way.noConfusion Way.noConfusion, moved_move, moved_move, if_pos rfl,
          if_neg Way.noConfusion, h.arrived, List.append_assoc]
      · intro hs
        rw [show s₁.state = _ from hs] at hstate₁
        cases hstate₁
      · show s₁.moved .writeBio = s₁.moved .sent ++ s₁.writeBio
        rw [hcalled.output, hcalled.moved _ Way.noConfusion Way.noConfusion, hcalled.writeBio,
          moved_move, moved_move, if_neg Way.noConfusion, if_neg Way.noConfusion, h.output,
          writeBio_move, List.append_assoc]
  | send data => exact ⟨_, rfl, h.send ssl data⟩

theorem Sound.of_call {c : Call} (h : Sound s)
    (hc : SslConnection.call ssl httpCallback s c = some s') : Sound s' := by
  obtain ⟨s₁, hs₁, hsound⟩ := h.call ssl httpCallback c
  obtain rfl := Option.some.inj (hs₁.symm.trans hc)
  exact hsound

/-- **Every run returns, and leaves the connection sound.** -/
theorem sound_of_behind (e : ε) (app : κ) (calls : List Call) :
    ∃ s, behind ssl httpCallback e app calls = some s ∧ Sound s := by
  induction calls using List.reverseRecOn with
  | nil => exact ⟨_, rfl, sound_new e app⟩
  | append_singleton calls c ih =>
    obtain ⟨s, hs, hsound⟩ := ih
    rw [behind_concat, hs]
    exact hsound.call ssl httpCallback c

end SslConnection

end KamaHttp
