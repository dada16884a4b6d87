import DocSearch.Proofs.Daemon.Exits
import DocSearch.Proofs.Search.Lending

/-!
# Failures that are not the service's

A request to the daemon fails with an error of the service (`Error.isService`), whatever the daemon
sends, but for the values inside a reply that is well-formed otherwise: numbers are made of what
stands in an embedding, and an answer is made of pieces, and neither is checked before.

**What a reply holds.** `Brings` is the object of a reply that came whole, and `Streams` is how a
stream is left by a worker whose token is not tripped. Whatever keeps an object from coming is an
error of the service (`failsEarly_readObject`, `streams_service`).

**`escapes_iff`** says for each kind of request which replies let another error out.
-/

namespace DocSearch.Daemon

open Text

/-! ## Errors of the service -/

/-- Whether an error has the service as its cause: the transport, the status or the payload. -/
def Error.isService : Error → Bool
  | .failed _ _ | .refused _ _ _ | .malformed _ | .unexpected _ | .reported _ | .noEmbeddings
  | .embeddingCount _ => true
  | _ => false

/-- A request that fails with another error than one of the service. -/
def Escapes {α : Type} (r : Except Error α) : Prop := ∃ e, r = .error e ∧ e.isService = false

/-- The failure of an outcome, if there is one. -/
def Outcome.failure? : Outcome → Option Failure
  | .failed f => some f
  | .replied r => r.failure

/-- An outcome that fails, if it does, because the connection fails. -/
def OfConnection (o : Outcome) : Prop :=
  ∀ f, o.failure? = some f → ∃ message, f = .connection message

variable {α β : Type} {o : Outcome} {r : Reply} {path : String} {e : Error} {fields : Object}

theorem not_escapes_ok (a : α) : ¬ Escapes (.ok a : Except Error α) := by
  rintro ⟨e, he, -⟩
  cases he

theorem escapes_error : Escapes (.error e : Except Error α) ↔ e.isService = false := by
  refine ⟨?_, fun h => ⟨e, rfl, h⟩⟩
  rintro ⟨e', he, h⟩
  cases he
  exact h

/-! ## Replies -/

/-- A token that nobody trips. -/
def untripped : Nat → Trip := fun _ => none

/-- The object that an outcome brings: there is a reply that is no refusal, it comes whole, and its
body is this object. -/
def Brings (o : Outcome) (fields : Object) : Prop :=
  ∃ r, o = .replied r ∧ r.isRefusal = false ∧ r.failure = none ∧
    object (Json.readBytes r.body) = .ok fields

/-- How a request fails before there is an object: by the failure of the outcome, or with an error of
the service that is not about a number of embeddings. -/
def FailsEarly (o : Outcome) (path : String) (e : Error) : Prop :=
  (∃ f, o.failure? = some f ∧ e = f.toError path) ∨ e.isService = true ∧ ∀ n, e ≠ .embeddingCount n

theorem FailsEarly.isService (h : FailsEarly o path e) (ho : OfConnection o) :
    e.isService = true := by
  rcases h with ⟨f, hf, rfl⟩ | ⟨hservice, -⟩
  · obtain ⟨message, rfl⟩ := ho f hf
    rfl
  · exact hservice

theorem FailsEarly.ne_count (h : FailsEarly o path e) (n : Nat) : e ≠ .embeddingCount n := by
  rcases h with ⟨f, -, rfl⟩ | ⟨-, hne⟩
  · cases f <;> simp [Failure.toError]
  · exact hne n

theorem failsEarly_object {read : Except Json.Error Value} (h : object read = .error e) :
    FailsEarly o path e := by
  right
  unfold object at h
  split at h
  next => cases h; exact ⟨rfl, fun _ => nofun⟩
  next => split at h <;> cases h; exact ⟨rfl, fun _ => nofun⟩
  next => cases h; exact ⟨rfl, fun _ => nofun⟩

theorem readParts_untripped (path : String) (failure : Option Failure) (i : Nat) (acc : Bytes)
    (parts : List Bytes) :
    readParts path untripped failure i acc parts =
      match failure with
      | some f => .error (f.toError path)
      | none => .ok (acc ++ parts.flatten) := by
  induction parts generalizing i acc with
  | nil => cases failure <;> simp [readParts, untripped]
  | cons p ps ih =>
    rw [readParts]
    split_ifs with hp
    · rw [ih, List.isEmpty_iff.1 hp, List.flatten_cons, List.nil_append]
    · simp only [untripped, ih, List.flatten_cons, List.append_assoc]

theorem accept_of_refusal (h : r.isRefusal = true) (path : String) :
    ∃ e, accept path (.replied r) = .error e ∧ FailsEarly (.replied r) path e := by
  unfold accept
  dsimp only
  rw [if_pos h]
  cases hfailure : r.failure with
  | some f => exact ⟨_, rfl, .inl ⟨f, hfailure, rfl⟩⟩
  | none => exact ⟨_, rfl, .inr ⟨rfl, fun _ => nofun⟩⟩

theorem accept_of_not_refusal (h : r.isRefusal = false) : accept path (.replied r) = .ok r := by
  simp [accept, h]

/-- A reply is read once it has come whole. -/
theorem readObject_of_not_refusal (h : r.isRefusal = false) :
    readObject path untripped (.replied r) =
      match r.failure with
      | some f => .error (f.toError path)
      | none => object (Json.readBytes r.body) := by
  have hparts := readParts_untripped path r.failure 0 [] r.parts
  rw [readObject, accept_of_not_refusal h]
  change (readParts path untripped r.failure 0 [] r.parts >>= _) = _
  rw [hparts]
  cases r.failure <;> rfl

theorem readObject_of_refusal (h : r.isRefusal = true) (path : String) :
    ∃ e, readObject path untripped (.replied r) = .error e ∧ FailsEarly (.replied r) path e := by
  obtain ⟨e, he, hearly⟩ := accept_of_refusal h path
  exact ⟨e, by rw [readObject, he]; rfl, hearly⟩

theorem readObject_eq_ok_iff (path : String) :
    readObject path untripped o = .ok fields ↔ Brings o fields := by
  cases o with
  | failed f =>
    refine iff_of_false (fun h => by cases h) ?_
    rintro ⟨r, hr, -⟩
    cases hr
  | replied r =>
    have hbrings : Brings (.replied r) fields ↔ r.isRefusal = false ∧ r.failure = none ∧
        object (Json.readBytes r.body) = .ok fields := by
      constructor
      · rintro ⟨r', hr, h⟩
        cases hr
        exact h
      · exact fun h => ⟨r, rfl, h⟩
    rw [hbrings]
    cases hrefusal : r.isRefusal with
    | true =>
      obtain ⟨e, he, -⟩ := readObject_of_refusal hrefusal path
      simp [he]
    | false =>
      rw [readObject_of_not_refusal hrefusal]
      cases r.failure <;> simp

/-- **Where no object comes**, the outcome has failed, or the error is one of the service. -/
theorem failsEarly_readObject (h : readObject path untripped o = .error e) :
    FailsEarly o path e := by
  cases o with
  | failed f =>
    cases h
    exact .inl ⟨f, rfl, rfl⟩
  | replied r =>
    cases hrefusal : r.isRefusal with
    | true =>
      obtain ⟨e', he, hearly⟩ := readObject_of_refusal hrefusal path
      rw [he] at h
      cases h
      exact hearly
    | false =>
      rw [readObject_of_not_refusal hrefusal] at h
      cases hfailure : r.failure with
      | some f =>
        rw [hfailure] at h
        cases h
        exact .inl ⟨f, hfailure, rfl⟩
      | none =>
        rw [hfailure] at h
        exact failsEarly_object h

/-- What is made of an object lets an error out exactly if the object comes and this fails. -/
theorem escapes_readObject_bind (ho : OfConnection o) (f : Object → Except Error α) :
    Escapes (readObject path untripped o >>= f) ↔
      ∃ fields, Brings o fields ∧ Escapes (f fields) := by
  cases hread : readObject path untripped o with
  | error e =>
    have hservice := (failsEarly_readObject hread).isService ho
    refine iff_of_false ?_ ?_
    · rw [show (Except.error e >>= f : Except Error α) = .error e from rfl, escapes_error, hservice]
      exact Bool.noConfusion
    · rintro ⟨fields, hbrings, -⟩
      rw [← readObject_eq_ok_iff path, hread] at hbrings
      cases hbrings
  | ok fields =>
    constructor
    · exact fun h => ⟨fields, (readObject_eq_ok_iff path).1 hread, h⟩
    · rintro ⟨fields', hbrings, h⟩
      rw [← readObject_eq_ok_iff path, hread] at hbrings
      cases hbrings
      exact h

/-! ## Embeddings -/

theorem isOk_vectorOf (v : Value) : (vectorOf v).isOk = Search.isVector v := by
  unfold vectorOf Search.isVector
  cases v.items with
  | error e => rfl
  | ok vs => exact Search.isOk_mapM_toFloat vs

/-- What is made of the object in a reply to an embedding request. -/
def vectorIn (fields : Object) : Except Error (List Float) :=
  match Value.lookup "embeddings" fields with
  | some (.list [v]) => (vectorOf v).mapError .notVector
  | some (.list vs) => .error (.embeddingCount vs.length)
  | _ => .error .noEmbeddings

theorem embedding_eq (trip : Nat → Trip) (o : Outcome) :
    embedding trip o = readObject embedPath trip o >>= vectorIn := rfl

theorem escapes_vectorIn :
    Escapes (vectorIn fields) ↔
      ∃ v, Value.lookup "embeddings" fields = some (.list [v]) ∧ Search.isVector v = false := by
  unfold vectorIn
  split
  next v hv =>
    simp only [hv, Option.some.injEq, Value.list.injEq, List.cons.injEq, and_true, exists_eq_left']
    rw [← isOk_vectorOf]
    cases vectorOf v with
    | ok v => exact iff_of_false (not_escapes_ok v) (by simp [Except.isOk, Except.toBool])
    | error e => exact iff_of_true ⟨_, rfl, rfl⟩ rfl
  next vs hne hvs =>
    refine iff_of_false (by simp [escapes_error, Error.isService]) ?_
    rintro ⟨v, hv, -⟩
    rw [hvs, Option.some.injEq, Value.list.injEq] at hv
    exact hne v hv
  next hne _ =>
    refine iff_of_false (by simp [escapes_error, Error.isService]) ?_
    rintro ⟨v, hv, -⟩
    exact hne v hv

theorem vectorIn_count {n : Nat} :
    vectorIn fields = .error (.embeddingCount n) ↔
      ∃ vs, Value.lookup "embeddings" fields = some (.list vs) ∧ vs.length = n ∧ n ≠ 1 := by
  unfold vectorIn
  split
  next v hv =>
    refine iff_of_false ?_ ?_
    · cases vectorOf v <;> simp [Except.mapError]
    · rintro ⟨vs, hvs, hlength, hne⟩
      rw [hv, Option.some.injEq, Value.list.injEq] at hvs
      exact hne (hlength ▸ hvs ▸ rfl)
  next vs hne hvs =>
    simp only [Except.error.injEq, Error.embeddingCount.injEq, hvs, Option.some.injEq,
      Value.list.injEq, exists_eq_left']
    refine ⟨fun h => ⟨h, ?_⟩, And.left⟩
    rintro rfl
    obtain ⟨v, rfl⟩ := List.length_eq_one_iff.1 h
    exact hne v rfl
  next _ hno =>
    refine iff_of_false (by simp) ?_
    rintro ⟨vs, hvs, -⟩
    exact hno vs hvs

theorem embedding_count {n : Nat} :
    embedding untripped o = .error (.embeddingCount n) ↔ ∃ fields vs, Brings o fields ∧
      Value.lookup "embeddings" fields = some (.list vs) ∧ vs.length = n ∧ n ≠ 1 := by
  simp only [exists_and_left, ← vectorIn_count, ← readObject_eq_ok_iff embedPath,
    embedding_eq]
  cases hread : readObject embedPath untripped o with
  | ok fields =>
    simp only [Except.ok.injEq, exists_eq_left']
    exact Iff.rfl
  | error e =>
    refine iff_of_false (fun h => ?_) (by simp)
    exact (failsEarly_readObject hread).ne_count n (Except.error.inj h)

/-! ## Answers -/

theorem escapes_joinPieces {pieces : List Value} :
    Escapes (joinPieces pieces) ↔ ∃ p ∈ pieces, ¬ IsText p := by
  rcases joinPieces_cases pieces with ⟨texts, rfl⟩ | ⟨hother, i, type, herror⟩
  · rw [joinPieces_texts]
    refine iff_of_false (not_escapes_ok _) ?_
    rintro ⟨p, hp, hnot⟩
    obtain ⟨s, -, rfl⟩ := List.mem_map.1 hp
    exact hnot ⟨s, rfl⟩
  · rw [herror]
    exact iff_of_true ⟨_, rfl, rfl⟩ hother

theorem escapes_completion {model : Value} {pieces : List Value} {last : Object} :
    Escapes (completion model pieces last) ↔ ∃ p ∈ pieces, ¬ IsText p := by
  rw [← escapes_joinPieces]
  unfold completion
  cases joinPieces pieces with
  | error e => exact escapes_error.trans escapes_error.symm
  | ok s => exact iff_of_false (not_escapes_ok _) (not_escapes_ok s)

theorem generation_whole (model : Value) (o : Outcome) :
    generation model false (fun _ _ => none) o =
      match readObject generatePath untripped o with
      | .error e => ([], .error e)
      | .ok fields => ([pieceOf fields], completion model [pieceOf fields] fields) := by
  have hwhole : wholePiece (fun _ _ => none) o =
      match readObject generatePath untripped o with
      | .error e => ([], .error e)
      | .ok fields => ([pieceOf fields], .ok fields) := rfl
  unfold generation replyPieces
  rw [if_neg Bool.false_ne_true, hwhole]
  cases readObject generatePath untripped o <;> rfl

theorem escapes_generation_whole (ho : OfConnection o) (model : Value) :
    Escapes (generation model false (fun _ _ => none) o).2 ↔
      ∃ fields, Brings o fields ∧ ¬ IsText (pieceOf fields) := by
  have hresult : (generation model false (fun _ _ => none) o).2 =
      readObject generatePath untripped o >>= fun fields =>
        completion model [pieceOf fields] fields := by
    rw [generation_whole]
    cases readObject generatePath untripped o <;> rfl
  rw [hresult, escapes_readObject_bind ho]
  simp [escapes_completion]

/-! ## Answers in a stream -/

/-- How a stream is left by a worker whose token is not tripped. -/
def Streams (o : Outcome) (pieces : List Value) (last : Except Error Object) : Prop :=
  ∃ r n, o = .replied r ∧ r.isRefusal = false ∧
    Exit r.arrivals (List.replicate n none) pieces last

theorem streamPieces_untripped {arrivals : List Arrival} {n : Nat} {pieces : List Value}
    {last : Except Error Object} (h : Exit arrivals (List.replicate n none) pieces last) :
    streamPieces (fun _ _ => none) 0 [] arrivals = (pieces, last) := by
  have hwatch : watchOf (List.replicate n none) = fun _ _ => none := by
    funext i _
    rw [watchOf, List.getElem?_replicate]
    split_ifs <;> rfl
  exact hwatch ▸ h.streamPieces_eq

theorem exists_exit_untripped (arrivals : List Arrival) :
    ∃ n pieces last, Exit arrivals (List.replicate n none) pieces last := by
  obtain ⟨more, hmore, hexit⟩ := streamPieces_exit (fun _ _ => none) (passed_nil arrivals)
  have hnone : more = List.replicate more.length none :=
    List.eq_replicate_of_mem fun t ht => by obtain ⟨_, _, rfl⟩ := hmore t ht; rfl
  rw [List.nil_append, hnone] at hexit
  exact ⟨_, _, _, hexit⟩

/-- The only failure on a stream is that of its reply. -/
theorem failure_of_mem_arrivals {f : Failure} (h : .failure f ∈ r.arrivals) :
    r.failure = some f := by
  have hfrom : ∀ (parts : List Bytes) (before : Bytes) (shown : Nat) (buffer : LineBuffer),
      .failure f ∈ arrivalsFrom r.charset r.failure before shown buffer parts →
      r.failure = some f := by
    intro parts
    induction parts with
    | nil =>
      intro before shown buffer hmem
      unfold arrivalsFrom at hmem
      cases hfailure : r.failure with
      | some f' => simpa [hfailure, eq_comm] using hmem
      | none => simp [hfailure] at hmem
    | cons p ps ih =>
      intro before shown buffer hmem
      simp only [arrivalsFrom, List.mem_append, List.mem_map, reduceCtorEq, and_false, exists_false,
        false_or] at hmem
      exact ih _ _ _ hmem
  exact hfrom _ _ _ _ h

/-- **A stream that breaks** does so with an error of the service. -/
theorem streams_service (ho : OfConnection o) {pieces : List Value}
    (h : Streams o pieces (.error e)) : e.isService = true := by
  obtain ⟨r, n, rfl, -, front, before, look, more, said, rest, tail, hseen, -, hpassed, hleaves⟩ := h
  have hlook : look = none :=
    List.eq_of_mem_replicate (hseen ▸ by simp : look ∈ List.replicate n none)
  subst hlook
  cases hleaves with
  | unread hbreaks =>
    have hearly : FailsEarly (.replied r) generatePath e := failsEarly_object hbreaks.2
    exact hearly.isService ho
  | @broken _ f _ =>
    have hmem : .failure f ∈ r.arrivals := by
      rw [hpassed.split]
      simp
    exact FailsEarly.isService (o := .replied r) (.inl ⟨f, failure_of_mem_arrivals hmem, rfl⟩) ho

theorem generation_stream {pieces : List Value} {last : Except Error Object} (model : Value)
    (h : Streams o pieces last) :
    generation model true (fun _ _ => none) o = (pieces, last >>= completion model pieces) := by
  obtain ⟨r, n, rfl, hrefusal, hexit⟩ := h
  unfold generation replyPieces
  rw [if_pos rfl, accept_of_not_refusal hrefusal]
  dsimp only
  rw [streamPieces_untripped hexit]

theorem escapes_generation_stream (ho : OfConnection o) (model : Value) :
    Escapes (generation model true (fun _ _ => none) o).2 ↔
      ∃ pieces fields, Streams o pieces (.ok fields) ∧ ∃ p ∈ pieces, ¬ IsText p := by
  by_cases hstream : ∃ pieces last, Streams o pieces last
  · obtain ⟨pieces, last, h⟩ := hstream
    have honly : ∀ pieces' last', Streams o pieces' last' → pieces' = pieces ∧ last' = last := by
      rintro pieces' last' ⟨r, n, rfl, -, hexit'⟩
      obtain ⟨r', n', hr, -, hexit⟩ := h
      cases hr
      exact Prod.mk.inj ((streamPieces_untripped hexit').symm.trans (streamPieces_untripped hexit))
    rw [generation_stream model h]
    cases last with
    | error e =>
      refine iff_of_false ?_ ?_
      · rw [show (Except.error e >>= completion model pieces) = .error e from rfl, escapes_error,
          streams_service ho h]
        exact Bool.noConfusion
      · rintro ⟨pieces', fields, h', -⟩
        cases (honly _ _ h').2
    | ok fields =>
      refine escapes_completion.trans ⟨fun hother => ⟨pieces, fields, h, hother⟩, ?_⟩
      rintro ⟨pieces', fields', h', hother⟩
      exact (honly _ _ h').1 ▸ hother
  · -- There is no stream: the request failed, or it was refused.
    refine iff_of_false ?_ fun ⟨pieces, fields, h, _⟩ => hstream ⟨pieces, .ok fields, h⟩
    have haccept : ∃ e, accept generatePath o = .error e ∧ FailsEarly o generatePath e := by
      cases o with
      | failed f => exact ⟨_, rfl, .inl ⟨f, rfl, rfl⟩⟩
      | replied r =>
        cases hrefusal : r.isRefusal with
        | true => exact accept_of_refusal hrefusal generatePath
        | false =>
          obtain ⟨n, pieces, last, hexit⟩ := exists_exit_untripped r.arrivals
          exact absurd ⟨pieces, last, r, n, rfl, hrefusal, hexit⟩ hstream
    obtain ⟨e, he, hearly⟩ := haccept
    unfold generation replyPieces
    rw [if_pos rfl, he]
    rintro ⟨e', he', hnot⟩
    cases he'
    rw [hearly.isService ho] at hnot
    cases hnot

/-! ## Which replies let another error out -/

/-- **Errors of the service, but for values of another kind.** Whatever the daemon sends, and
whichever way the connection fails, a request of a caller whose token is not tripped fails with
another error than one of the service in these cases exactly: a reply to an embedding request holds
one embedding, and that is no sequence of numbers; a reply to a prompt holds a piece that is no text;
a stream runs to its end and has such a piece that is not empty. The number of embeddings is
reported exactly if it is not one. -/
theorem escapes_iff (o : Outcome) (ho : OfConnection o) (model : Value) :
    (Escapes (embedding untripped o) ↔ ∃ fields v, Brings o fields ∧
      Value.lookup "embeddings" fields = some (.list [v]) ∧ Search.isVector v = false) ∧
    (∀ n, embedding untripped o = .error (.embeddingCount n) ↔ ∃ fields vs, Brings o fields ∧
      Value.lookup "embeddings" fields = some (.list vs) ∧ vs.length = n ∧ n ≠ 1) ∧
    (Escapes (generation model false (fun _ _ => none) o).2 ↔ ∃ fields, Brings o fields ∧
      ¬ IsText (pieceOf fields)) ∧
    (Escapes (generation model true (fun _ _ => none) o).2 ↔ ∃ pieces fields,
      Streams o pieces (.ok fields) ∧ ∃ p ∈ pieces, ¬ IsText p) := by
  refine ⟨?_, fun n => embedding_count, escapes_generation_whole ho model,
    escapes_generation_stream ho model⟩
  rw [embedding_eq, escapes_readObject_bind ho]
  simp only [escapes_vectorIn, exists_and_left]

/-- The reply with a body of one part. -/
def bodyReply (body : String) : Outcome := .replied { parts := [Utf8.encode body] }

theorem ofConnection_bodyReply (body : String) : OfConnection (bodyReply body) := by
  intro f hf
  cases hf

/-- Where two embeddings come, the reply holds a list of two. -/
theorem escapes_iff_two_embeddings :
    OfConnection (bodyReply "\x7b\"embeddings\":[[],[]]\x7d") ∧
      ∃ fields vs, Brings (bodyReply "\x7b\"embeddings\":[[],[]]\x7d") fields ∧
        Value.lookup "embeddings" fields = some (.list vs) ∧ vs.length = 2 ∧ 2 ≠ 1 :=
  ⟨ofConnection_bodyReply _, ((escapes_iff _ (ofConnection_bodyReply _) .null).2.1 2).1
    (eq_error_of_decide (by decide +kernel))⟩

/-- A letter in place of a number, a number in place of an embedding, and a number in place of a
piece let errors out that are not the service's. -/
theorem stray_values_escape :
    (embedding untripped (bodyReply "\x7b\"embeddings\":[[\"x\"]]\x7d") =
        .error (.notVector (.malformed "x")) ∧
      embedding untripped (bodyReply "\x7b\"embeddings\":[5]\x7d") =
        .error (.notVector (.notIterable "int")) ∧
      (generation (.text "m") false (fun _ _ => none) (bodyReply "\x7b\"response\":5\x7d")).2 =
        .error (.notText 0 "int") ∧
      (generation (.text "m") true (fun _ _ => none)
          (bodyReply "\x7b\"response\":5,\"done\":true\x7d\n")).2 =
        .error (.notText 0 "int")) ∧
    ∀ (e : Error), e ∈ [.notVector (.malformed "x"), .notVector (.notIterable "int"),
      .notText 0 "int"] → e.isService = false := by
  refine ⟨⟨?_, ?_, ?_, ?_⟩, ?_⟩
  · exact eq_error_of_decide (by decide +kernel)
  · exact eq_error_of_decide (by decide +kernel)
  · exact eq_error_of_decide (by decide +kernel)
  · exact eq_error_of_decide (by decide +kernel)
  · intro e he
    simp only [List.mem_cons, List.not_mem_nil, or_false] at he
    rcases he with rfl | rfl | rfl <;> rfl

end DocSearch.Daemon
