import KamaHttp.App.MemoryStore
import KamaHttp.Foundations.Machine

/-!
# The lifetime in the body of a shorten request

`parseJson` reads the number behind `"ttl":` digit by digit into an `int`, whatever its length.

* `along_fits_iff`: the loop stays in the range of `int` exactly if the number does.
* `readsTtl_iff`: when the store is handed the number that is written.
-/

namespace KamaHttp

open Search

/-! ## What `parseJson` reads -/

/-- The text in the quotes behind `"url":`. -/
def urlText (body : Bytes) : Option Bytes :=
  (((past (bytes "\"url\"") body).bind (past [58])).bind (past [34])).bind fun rest =>
    (breakOn [34] rest).map Prod.fst

/-- The digits behind `"ttl":`, behind white space. -/
def ttlDigits (body : Bytes) : Bytes :=
  (((past (bytes "\"ttl\"") body).bind (past [58])).map fun rest =>
    (rest.dropWhile isspace).takeWhile isdigit).getD []

/-- The loop of `parseJson` over the digits. -/
def accumulate (ds : Bytes) : ℤ :=
  ds.foldl (fun v d => toInt32 (toInt32 (v * 10) + (d.toNat - 48 : ℤ))) 0

theorem parseTtl_eq (body : Bytes) : parseTtl body = accumulate (ttlDigits body) := by
  unfold parseTtl ttlDigits past
  rcases breakOn (bytes "\"ttl\"") body with _ | ⟨_, rest⟩
  · rfl
  dsimp only [Option.map_some, Option.bind_some]
  rcases breakOn [58] rest with _ | ⟨_, rest⟩ <;> rfl

theorem parseJson_eq (body : Bytes) :
    parseJson body = (urlText body).map fun url => (url, parseTtl body) := by
  unfold parseJson urlText past
  rcases breakOn (bytes "\"url\"") body with _ | ⟨_, rest⟩
  · rfl
  dsimp only [Option.map_some, Option.bind_some]
  rcases breakOn [58] rest with _ | ⟨_, rest⟩
  · rfl
  dsimp only [Option.map_some, Option.bind_some]
  rcases breakOn [34] rest with _ | ⟨_, rest⟩
  · rfl
  dsimp only [Option.map_some, Option.bind_some]
  rcases breakOn [34] rest with _ | ⟨_, rest⟩ <;> rfl

/-! ## The range of the loop -/

def IsInt (z : ℤ) : Prop := intMin ≤ z ∧ z ≤ intMax

theorem toInt32_of_isInt {z : ℤ} (h : IsInt z) : toInt32 z = z := by
  simp only [IsInt, intMin, intMax] at h
  unfold toInt32
  omega

/-- Behind the digits `front`, the product and the sum for the digit `d` are in the range of
`int`. -/
def Fits (front : Bytes) (d : Byte) : Prop :=
  IsInt (accumulate front * 10) ∧ IsInt (accumulate front * 10 + (d.toNat - 48 : ℤ))

theorem accumulate_concat (ds : Bytes) (d : Byte) :
    accumulate (ds ++ [d]) = toInt32 (toInt32 (accumulate ds * 10) + (d.toNat - 48 : ℤ)) := by
  rw [accumulate, List.foldl_append]
  rfl

theorem digitsVal_concat (ds : Bytes) (d : Byte) :
    digitsVal (ds ++ [d]) = 10 * digitsVal ds + (d.toNat - 48) := by
  rw [digitsVal, List.foldl_append]
  rfl

theorem toNat_of_isdigit {d : Byte} (h : isdigit d) : 48 ≤ d.toNat ∧ d.toNat ≤ 57 := by
  simpa [isdigit, UInt8.le_iff_toNat_le] using h

/-- **The loop stays in the range of `int` exactly if the number does**, and then it ends with the
number. -/
theorem along_fits_iff {ds : Bytes} (h : ∀ d ∈ ds, isdigit d) :
    (Along Fits ds ↔ (digitsVal ds : ℤ) ≤ intMax) ∧
      ((digitsVal ds : ℤ) ≤ intMax → accumulate ds = digitsVal ds) := by
  induction ds using List.reverseRecOn with
  | nil => exact ⟨iff_of_true (along_nil _) (by decide), fun _ => rfl⟩
  | append_singleton ds d ih =>
    obtain ⟨hrange, hval⟩ := ih fun x hx => h x (by simp [hx])
    obtain ⟨hlo, hhi⟩ := toNat_of_isdigit (h d (by simp))
    have hnat : (digitsVal (ds ++ [d]) : ℤ) = digitsVal ds * 10 + (d.toNat - 48 : ℤ) := by
      rw [digitsVal_concat]
      omega
    rw [along_concat, hrange, accumulate_concat, hnat]
    -- the digits before are in range in either direction, so that they have been read
    have hfits : (digitsVal ds : ℤ) ≤ intMax →
        (Fits ds d ↔ (digitsVal ds : ℤ) * 10 + (d.toNat - 48 : ℤ) ≤ intMax) := fun hds => by
      rw [Fits, hval hds, IsInt, IsInt]
      simp only [intMin, intMax] at hds ⊢
      omega
    refine ⟨⟨fun hd => (hfits hd.1).1 hd.2, fun hle => ?_⟩, fun hle => ?_⟩
    · have hds : (digitsVal ds : ℤ) ≤ intMax := by
        simp only [intMax] at hle ⊢
        omega
      exact ⟨hds, (hfits hds).2 hle⟩
    · have hds : (digitsVal ds : ℤ) ≤ intMax := by
        simp only [intMax] at hle ⊢
        omega
      obtain ⟨hproduct, hsum⟩ := (hfits hds).2 hle
      rw [toInt32_of_isInt hproduct, toInt32_of_isInt hsum, hval hds]

theorem isdigit_of_mem_ttlDigits {body : Bytes} {d : Byte} (h : d ∈ ttlDigits body) :
    isdigit d := by
  rw [ttlDigits] at h
  rcases hrest : (past (bytes "\"ttl\"") body).bind (past [58]) with _ | rest <;> rw [hrest] at h
  · cases h
  · exact List.mem_takeWhile_imp h

/-! ## What the store is handed -/

variable {κ : Type*}

/-- The store, with the lifetimes that `setNX` is handed. -/
def IStore.recording (S : IStore κ) : IStore (κ × List ℤ) where
  get key w := ((S.get key w.1).1, ((S.get key w.1).2, w.2))
  setNX key value ttl w :=
    ((S.setNX key value ttl w.1).1, ((S.setNX key value ttl w.1).2, w.2 ++ [ttl]))
  set key value ttl w := ((S.set key value ttl w.1).1, ((S.set key value ttl w.1).2, w.2))
  del key w := ((S.del key w.1).1, ((S.del key w.1).2, w.2))

/-- The state with another store. -/
def State.withStore {κ' : Type*} (st : State κ) (store : κ') : State κ' :=
  ⟨store, st.bloom, st.metrics, st.dist⟩

/-- The attempts on a store that records: they are those on the store, and each of them hands it the
same lifetime. -/
theorem attempts_recording (S : IStore κ) (url : Bytes) (ttl : ℤ) (resp : HttpResponse) (n : ℕ)
    (st : State κ) (log : List ℤ) :
    let result := ShortenHandler.attempts S url ttl resp n st
    ∃ k, ShortenHandler.attempts S.recording url ttl resp n (st.withStore (st.store, log)) =
      (result.1, result.2.withStore (result.2.store, log ++ List.replicate k ttl)) := by
  induction n generalizing st log with
  | zero => exact ⟨0, by simp [ShortenHandler.attempts, State.withStore]⟩
  | succ n ih =>
    have hsetNX : S.recording.setNX (ShortId.random 7 st.dist).1 url ttl (st.store, log) =
        ((S.setNX (ShortId.random 7 st.dist).1 url ttl st.store).1,
          ((S.setNX (ShortId.random 7 st.dist).1 url ttl st.store).2, log ++ [ttl])) := rfl
    simp only [ShortenHandler.attempts, State.withStore, hsetNX]
    rcases S.setNX (ShortId.random 7 st.dist).1 url ttl st.store with ⟨e | _ | _, store⟩
    · exact ⟨1, rfl⟩
    · obtain ⟨k, hk⟩ := ih (State.count { st with store, dist := (ShortId.random 7 st.dist).2 }
        fun m => { m with storeSetnxConflict := m.storeSetnxConflict + 1 }) (log ++ [ttl])
      refine ⟨k + 1, ?_⟩
      rw [List.append_assoc, List.singleton_append, ← List.replicate_succ] at hk
      exact hk
    · exact ⟨1, rfl⟩

/-- The request handled on a store that records: the answer, and the lifetimes. -/
def handed (S : IStore κ) (req : HttpRequest) (resp : HttpResponse) (st : State κ) :
    Answer × List ℤ :=
  let result := ShortenHandler.handle S.recording req resp (st.withStore (st.store, []))
  (result.1, result.2.store.2)

/-- What a request hands the store: nothing, where it is answered 400, or the lifetime that
`parseJson` reads. -/
theorem handed_cases (S : IStore κ) (req : HttpRequest) (resp : HttpResponse) (st : State κ) :
    (handed S req resp st).1 = (ShortenHandler.handle S req resp st).1 ∧
      ((handed S req resp st).1.response.statusCode = 400 ∨
        urlText req.getBody ≠ none ∧
          ∀ ttl ∈ (handed S req resp st).2, ttl = parseTtl req.getBody) := by
  simp only [handed, ShortenHandler.handle, parseJson_eq]
  rcases urlText req.getBody with _ | url
  · exact ⟨rfl, .inl rfl⟩
  · simp only [Option.map_some]
    split
    · obtain ⟨k, hk⟩ := attempts_recording S url (parseTtl req.getBody) resp 5 st []
      rw [hk]
      refine ⟨rfl, .inr ⟨nofun, fun ttl httl => ?_⟩⟩
      exact List.eq_of_mem_replicate httl
    · exact ⟨rfl, .inl rfl⟩

/-- The loop of `parseJson`, if it is reached, stays in the range of `int`, and the store is handed
the number that is written, or the request is answered 400. -/
structure ReadsTtl (S : IStore κ) (req : HttpRequest) (resp : HttpResponse) (st : State κ) :
    Prop where
  loop : urlText req.getBody ≠ none → Along Fits (ttlDigits req.getBody)
  handed : (handed S req resp st).1.response.statusCode = 400 ∨
    ∀ ttl ∈ (handed S req resp st).2, ttl = digitsVal (ttlDigits req.getBody)

/-- **When the lifetime is read as it is written.** Whatever the store, its state and the body:
exactly if the body has no URL, so that the lifetime is not read, or the number fits an `int`. -/
theorem readsTtl_iff (S : IStore κ) (req : HttpRequest) (resp : HttpResponse) (st : State κ) :
    ReadsTtl S req resp st ↔
      urlText req.getBody = none ∨ (digitsVal (ttlDigits req.getBody) : ℤ) ≤ intMax := by
  obtain ⟨hrange, hval⟩ := along_fits_iff fun d hd => isdigit_of_mem_ttlDigits (d := d) hd
  constructor
  · intro h
    by_cases hurl : urlText req.getBody = none
    · exact .inl hurl
    · exact .inr (hrange.1 (h.loop hurl))
  · intro h
    obtain ⟨-, hcases⟩ := handed_cases S req resp st
    refine ⟨fun hurl => hrange.2 (h.resolve_left hurl), hcases.imp_right ?_⟩
    rintro ⟨hurl, hread⟩ ttl httl
    rw [hread ttl httl, parseTtl_eq, hval (h.resolve_left hurl)]

/-- A request whose lifetime is the first number beyond 32 bits. -/
def longTtlRequest : HttpRequest :=
  { HttpRequest.new with
    method := .kPost
    path := bytes "/api/shorten"
    content := bytes "\x7b\"url\":\"http://a\",\"ttl\":4294967296\x7d" }

/-- The number wraps to zero, and the link never expires. -/
theorem long_ttl_wraps :
    let st : State (KVStore 8) := ⟨.new 8, none, none, fun _ => 0⟩
    digitsVal (ttlDigits longTtlRequest.getBody) = 4294967296 ∧
      ¬ Along Fits (ttlDigits longTtlRequest.getBody) ∧
      (handed (memoryStore 8) longTtlRequest (.new false) st).1.response.statusCode = 200 ∧
      (handed (memoryStore 8) longTtlRequest (.new false) st).2 = [0] := by
  have hval : digitsVal (ttlDigits longTtlRequest.getBody) = 4294967296 := by decide +kernel
  refine ⟨hval, fun hfits => ?_, by decide +kernel, by decide +kernel⟩
  have hrange := (along_fits_iff fun d hd => isdigit_of_mem_ttlDigits (d := d) hd).1.1 hfits
  rw [hval] at hrange
  exact absurd hrange (by decide)

end KamaHttp
