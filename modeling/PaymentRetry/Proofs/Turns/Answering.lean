import Mathlib.Data.List.TakeWhile
import PaymentRetry.Api.Handler
import PaymentRetry.Proofs.Number.Cents
import PaymentRetry.Proofs.Turns.Submitting

/-!
# What the interface answers

An order is answered by what has become of its payment: the answer is a function of the one attempt that has been
stored for it (`Api.answerTo`), whatever the gateway does meanwhile (`Api.submitOrder_served`).  So the answer tells the
truth about the store (`Response.Truthful`), and whoever asks for the payment afterwards is shown the same.

An attempt is left pending only if the store refuses the reason of its failure; then, and only then, the answer is an
internal error.
-/

namespace PaymentRetry

open Simulation

/-! ### Orders that are accepted -/

theorem Failure.ofTexts?_of_wellFormed {texts : List String} (h : ∀ text ∈ texts, Text.isWellFormed text = true) :
    ofTexts? texts = none := by
  have hnone : ∀ text ∈ texts, Text.encodingProblem? text = none := by
    intro text htext
    have hall : ∀ c ∈ text.toList, (Text.half? c).isNone = true := List.all_eq_true.1 (h text htext)
    have hrest : text.toList.dropWhile (fun c => (Text.half? c).isNone) = [] := List.dropWhile_eq_nil_iff.2 hall
    simp [Text.encodingProblem?, List.span_eq_takeWhile_dropWhile, hrest]
  rw [ofTexts?, List.findSome?_eq_none_iff.2 hnone]
  rfl

theorem Validation.boundedText_eq_ok {least most : Nat} {j : Json} {text : String}
    (h : boundedText least most j = .ok text) :
    Text.isWellFormed text = true ∧ least ≤ text.length ∧ text.length ≤ most := by
  unfold boundedText at h
  split at h
  · unfold encodable at h
    split at h
    · rename_i hformed
      obtain ⟨hleast, h⟩ := ite_refuse_eq_ok.1 h
      obtain ⟨hmost, h⟩ := ite_refuse_eq_ok.1 h
      cases h
      exact ⟨hformed, Nat.not_lt.1 hleast, Nat.not_lt.1 hmost⟩
    · cases h
  · rename_i hnot
    exact absurd h (hnot text)

theorem Validation.wellFormed_of_boundedText {least most : Nat} {j : Json} {text : String}
    (h : boundedText least most j = .ok text) : Text.isWellFormed text = true :=
  (boundedText_eq_ok h).1

namespace Api

private theorem ofMembers_of_readOrder {r : Request} {o : Order} (h : readOrder r = .ok o) :
    ∃ j, Order.ofMembers j = .ok o := by
  unfold readOrder at h
  split at h
  · cases h
  · split at h
    · split at h
      · cases h
      · cases h
      · rename_i members _
        cases hread : Order.ofMembers (.object members) with
        | error issues =>
          rw [hread] at h
          cases h
        | ok o' =>
          rw [hread] at h
          cases h
          exact ⟨_, hread⟩
      · cases h
    · cases h

/-- Whether the store can take the first attempt of `o`: it can be handed over and is complete, and its amount is
finite when it is read back. -/
structure Order.Accepted (o : Order) : Prop where
  keyed : Failure.ofTexts? [o.key] = none
  storable : o.submission.draft.unstorable? = none
  complete : ¬o.submission.draft.Incomplete
  finite : o.amount.stored.isFinite = true

theorem accepted_of_readOrder {r : Request} {o : Order} (h : readOrder r = .ok o) : o.Accepted := by
  obtain ⟨j, hread⟩ := ofMembers_of_readOrder h
  obtain ⟨⟨_, hkey⟩, ⟨_, htransaction⟩, ⟨_, hamount⟩, ⟨_, hcurrency⟩⟩ := Order.members_checked hread
  obtain ⟨c, e, hvalue, -, hlt, -⟩ := Validation.positiveDecimal_eq_ok hamount
  have hkey := Validation.wellFormed_of_boundedText hkey
  have htransaction := Validation.wellFormed_of_boundedText htransaction
  have hcurrency := Validation.wellFormed_of_boundedText hcurrency
  have hnumber : ∀ signalling, o.amount ≠ .nan signalling := by simp [hvalue]
  refine ⟨?_, ?_, ?_, ?_⟩
  · exact Failure.ofTexts?_of_wellFormed (by simpa using hkey)
  · refine Store.unstorable?_eq_none.2 ⟨hnumber true, ?_, rfl, ?_⟩
    · exact Failure.ofTexts?_of_wellFormed (by simp [Order.submission, Submission.draft, hkey, htransaction])
    · exact Failure.ofTexts?_of_wellFormed (by simpa [Order.submission, Submission.draft] using hcurrency)
  · simp [Draft.Incomplete, Order.submission, Submission.draft, hnumber]
  · rw [hvalue]
    exact Decimal.isFinite_stored (by linarith)

/-! ### Answering an order -/

/-- The answer to an order for whose payment `row` has been stored. -/
def answerTo (row : Attempt) : Response :=
  match row.state with
  | .success => showPayment 201 [row]
  | .retried => showPayment 202 [row]
  | .aborted => problem 402 (Failure.paymentFailed ⟨row, .aborted, none⟩).message
  | .pending => internalError

/-- Whether `row` has been added to `w` as the first attempt of the payment of `o`.  It is due at a time if it is to be
retried, and it is pending only if the store has refused the reason of its failure. -/
structure Order.Recorded (o : Order) (s : Scheduler) (S : Service) (w w' : World) (row : Attempt) : Prop where
  rows_eq : w'.store.rows = w.store.rows ++ [row]
  key_eq : row.key = o.key
  number_eq : row.number = 1
  finite : row.amount.isFinite = true
  due : row.state = .retried → ∃ due, row.dueAt = some due
  refused : row.state = .pending → ∃ c y type f, s.Hears S c y ∧
    (GatewayResult.ofAnswer y).outcome.failureType = some type ∧
      Failure.ofTexts? (GatewayResult.ofAnswer y).message.toList = some f

end Api

namespace Store

theorem mem_history {s : Store} {key : String} {a : Attempt} : a ∈ s.history key ↔ a ∈ s.rows ∧ a.key = key := by
  simp [history, ordered]

theorem history_eq_singleton {s : Store} {prior : List Attempt} {a : Attempt} (hrows : s.rows = prior ++ [a])
    (hprior : ∀ b ∈ prior, b.key ≠ a.key) : s.history a.key = [a] := by
  have hnone : prior.filter (·.key = a.key) = [] := List.filter_eq_nil_iff.2 fun b hb => by simpa using hprior b hb
  simp [history, ordered, hrows, hnone]

end Store

namespace Api

open Program

variable {S : Service} {s : Scheduler} {w : World}

private theorem alwaysEnds_showByKey {serving : Serving World} (h : ServesAsWorld serving) {status : Nat} {key : String}
    (hkey : Failure.ofTexts? [key] = none) {ends : Response → World → Prop} :
    (showByKey status key).AlwaysEnds serving ends w ↔ ends (showPayment status (w.store.history key)) w := by
  unfold showByKey
  simp only [bind_eq, alwaysEnds_bind, h.alwaysEnds_history, hkey, Option.elim_none]
  rfl

private theorem Order.Accepted.recorded {o : Order} (ho : o.Accepted) {t : Store} {a row : Attempt} {now : DateTime}
    (hinsert : w.store.insert o.submission.draft now = .ok (a, t)) {w' : World}
    (hrows : w'.store.rows = w.store.rows ++ [row]) (hbecomes : a.asStored.Becomes row)
    (hdue : row.state = .retried → ∃ due, row.dueAt = some due)
    (hrefused : row.state = .pending → ∃ c y type f, s.Hears S c y ∧
      (GatewayResult.ofAnswer y).outcome.failureType = some type ∧
        Failure.ofTexts? (GatewayResult.ofAnswer y).message.toList = some f) : o.Recorded s S w w' row := by
  obtain ⟨hkey, -, hnumber, -, -, hamount, -⟩ := Store.complete?_eq_some (Store.insert_eq_ok hinsert).1
  have hkey' : o.key = a.key := Option.some.inj hkey
  have hnumber' : 1 = a.number := Option.some.inj hnumber
  have hamount' : row.amount = o.amount.stored := by
    rw [hbecomes.amount_eq]
    exact congrArg Decimal.stored hamount
  exact ⟨hrows, hbecomes.key_eq.trans hkey'.symm, hbecomes.number_eq.trans hnumber'.symm, hamount' ▸ ho.finite, hdue,
    hrefused⟩

/-- The first attempt of an accepted order has been completed as was decided, or it is pending because the store has
refused the reason of its failure. -/
private theorem Order.Accepted.carriedOut (hS : S.Steady) {o : Order} (ho : o.Accepted) (hdistinct : w.store.Distinct)
    (hdates : ∀ t, t = w.now ∨ S.moments t → ∀ outcome, s.policy.DateFits outcome 1 t) {a : Attempt} {t : Store}
    {now : DateTime} (hinsert : w.store.insert o.submission.draft now = .ok (a, t)) {w₁ w' : World}
    (hstore : w₁.store = t) (hnow : w₁.now = w.now) {x : Except Failure Decision}
    (hcarried : s.CarriesOut S w₁ a x w') :
    ∃ row, o.Recorded s S w w' row ∧
      ((row.state ≠ .pending ∧ ∃ due, x = .ok ⟨row, row.state, due⟩) ∨
        (row.state = .pending ∧ ∃ reason, x = .error (.raised "UnicodeEncodeError" [.text reason]))) := by
  obtain ⟨hcomplete, -, -, hrows⟩ := Store.insert_eq_ok hinsert
  obtain ⟨-, -, hnumber, -, hstate, hamount, -⟩ := Store.complete?_eq_some hcomplete
  have hpending : a.asStored.state = .pending := hstate
  have hnumber' : 1 = a.asStored.number := Option.some.inj hnumber
  cases hcarried with
  | calledOff hcancelled hcalled _ =>
    rw [hS.carriesOn _ _ hcalled] at hcancelled
    cases hcancelled
  | @settled y _ _ hheard _ ht hput hconcludes =>
    have hlast : w'.store.rows = w.store.rows ++ [s.policy.settle (.ofAnswer y) w'.now a.asStored] := by
      rw [hput, hstore]
      exact Store.put_last (hdistinct.insert hinsert) hrows RetryPolicy.settle_id
    have hrecorded := ho.recorded (s := s) (S := S) hinsert hlast (RetryPolicy.settle_becomes hpending)
    cases hconcludes with
    | untold hinfinite =>
      have hfinite : a.asStored.amount = o.amount.stored := congrArg Decimal.stored hamount
      rw [hfinite, ho.finite] at hinfinite
      cases hinfinite
    | unruled hruling =>
      obtain ⟨target, change, hruled⟩ := (hdates w'.now (hnow ▸ ht) (GatewayResult.ofAnswer y).outcome).exists_ruling
      rw [hnumber', hruling] at hruled
      cases hruled
    | @refused target change f hruling hf =>
      obtain ⟨type, htype, hreason⟩ := RetryPolicy.exists_reason_of_ruling hruling hf
      have hsettle : s.policy.settle (.ofAnswer y) w'.now a.asStored = a.asStored :=
        RetryPolicy.settle_of_leavesPending (.inr ⟨target, change, f, hruling, hf⟩)
      rw [hsettle] at hrecorded
      exact ⟨_, hrecorded (by simp [hpending]) fun _ => ⟨a.charge, y, type, _, hheard, htype, hreason⟩,
        .inr ⟨hpending, (Failure.exists_raised_of_ofTexts? hf).imp fun _ hf => congrArg Except.error hf⟩⟩
    | @decided target change hruling hmessage =>
      have hsettle := RetryPolicy.settle_of_ruling hruling hmessage
      generalize s.policy.settle (.ofAnswer y) w'.now a.asStored = row at hsettle hrecorded ⊢
      obtain rfl : row.state = target := by
        rw [hsettle]
        rfl
      have hdue : row.state = .retried → ∃ due, row.dueAt = some due := by
        intro hretried
        rw [hretried] at hruling
        obtain ⟨⟨due, hchange⟩, -⟩ := RetryPolicy.ruling_retried hruling
        exact ⟨due, by rw [hsettle]; simp [Change.apply, hchange]⟩
      have hsettled := RetryPolicy.ruling_ne_pending hruling
      exact ⟨row, hrecorded hdue fun hpending => absurd hpending hsettled, .inl ⟨hsettled, _, rfl⟩⟩

/-- An order is refused without a trace if its payment has attempts already.  Otherwise one attempt is stored for it,
and the answer is `answerTo` that row. -/
theorem submitOrder_served (hS : S.Steady) (hfree : ∀ key, ¬S.disturbed key ∧ ¬S.barred key) (hw : w.Still)
    (hsequenced : w.store.Sequenced) (hminted : w.store.Minted) {o : Order} (ho : o.Accepted)
    (hdates : ∀ t, t = w.now ∨ S.moments t → ∀ outcome, s.policy.DateFits outcome 1 t) (identity : String) :
    (submitOrder s identity o).AlwaysEnds S.Serves (fun x w' =>
      (∃ a ∈ w.store.rows, a.key = o.key) ∧ x.status = 409 ∧ w.Unmoved w' ∨
        (∀ a ∈ w.store.rows, a.key ≠ o.key) ∧ ∃ row, o.Recorded s S w w' row ∧ x = answerTo row) w := by
  have hserves := Service.servesAsWorld hfree
  have hdistinct := hsequenced.distinct
  have htaken : IsDuplicate (w.store.insert o.submission.draft w.now) ↔ ∃ a ∈ w.store.rows, a.key = o.key := by
    rw [Store.insert_isDuplicate_iff hminted (by rintro id ⟨⟩), hsequenced.has_first_iff]
    simp only [ho.storable, ho.complete, true_and, false_or]
    simp [Order.submission, @eq_comm _ o.key]
  unfold submitOrder
  simp only [bind_eq, alwaysEnds_bind, hserves.alwaysEnds_log]
  refine (Scheduler.submit_served hS.answered hfree (w := w.log _) (s := s) ⟨hw.undisturbed, hw.still⟩ hdistinct
    o.submission).mono fun x w' hx => ?_
  rcases hx with ⟨f, hinsert, rfl, hunmoved⟩ | ⟨a, t, y, w₁, hinsert, hstore, hnow, hcarried, rfl⟩
  · have hduplicate : IsDuplicate (.error f : Except Failure (Attempt × Store)) :=
      (Store.insert_refused hinsert).resolve_left (by simp [ho.storable])
    obtain ⟨key, number, hf⟩ := id hduplicate
    obtain rfl := Except.error.inj hf
    rw [← hinsert] at hduplicate
    exact .inl ⟨htaken.1 hduplicate, rfl, hunmoved.store, hunmoved.charges, hunmoved.breaker, hunmoved.published⟩
  · have hinsert : w.store.insert o.submission.draft w.now = .ok (a, t) := hinsert
    have hfirst : ∀ b ∈ w.store.rows, b.key ≠ o.key := by
      intro b hb hkey
      have hduplicate := htaken.2 ⟨b, hb, hkey⟩
      rw [hinsert] at hduplicate
      exact not_isDuplicate_ok _ hduplicate
    obtain ⟨row, hrow, hended⟩ := ho.carriedOut hS hdistinct hdates hinsert hstore hnow hcarried
    have hhistory : w'.store.history o.key = [row] := by
      rw [← hrow.key_eq]
      exact Store.history_eq_singleton hrow.rows_eq fun b hb => hrow.key_eq ▸ hfirst b hb
    rcases hended with ⟨hsettled, due, rfl⟩ | ⟨hpending, reason, rfl⟩
    · cases hstate : row.state with
      | pending => exact absurd hstate hsettled
      | success =>
        simp only [Scheduler.submitted, if_true, alwaysEnds_showByKey hserves ho.keyed, hhistory]
        exact .inr ⟨hfirst, row, hrow, by simp only [answerTo, hstate]⟩
      | retried =>
        simp only [Scheduler.submitted, reduceCtorEq, if_false, alwaysEnds_showByKey hserves ho.keyed, hhistory]
        exact .inr ⟨hfirst, row, hrow, by simp only [answerTo, hstate]⟩
      | aborted =>
        simp only [Scheduler.submitted, reduceCtorEq, if_false, if_true]
        exact .inr ⟨hfirst, row, hrow, by simp only [answerTo, hstate]; rfl⟩
    · exact .inr ⟨hfirst, row, hrow, by simp only [answerTo, hpending]⟩

/-- Whether `x` tells the truth about `row`, the one attempt of its payment: the status is that of `row`, and the
payment is shown with `row` as it is stored. -/
structure Response.Truthful (x : Response) (row : Attempt) : Prop where
  created : x.status = 201 ↔ row.state = .success
  accepted : x.status = 202 ↔ row.state = .retried
  failed : x.status = 402 ↔ row.state = .aborted
  broken : x.status = 500 ↔ row.state = .pending
  shown : x.status = 201 ∨ x.status = 202 → x.body = .json (paymentJson row [row])
  awaited : x.status = 202 → ∃ due, row.dueAt = some due ∧ nextRetryAt row = some due
  finished : x.status = 201 → nextRetryAt row = none

private theorem Response.Truthful.of_eq {x y : Response} {row : Attempt} (h : y.Truthful row)
    (hstatus : x.status = y.status) (hbody : x.body = y.body) : x.Truthful row := by
  constructor
  all_goals rw [hstatus]
  · exact h.created
  · exact h.accepted
  · exact h.failed
  · exact h.broken
  · exact fun hshown => hbody.trans (h.shown hshown)
  · exact h.awaited
  · exact h.finished

private theorem truthful_answerTo {row : Attempt} (hfinite : row.amount.isFinite = true)
    (hdue : row.state = .retried → ∃ due, row.dueAt = some due) : (answerTo row).Truthful row := by
  have hshown : ∀ status, showPayment status [row] = { status := status, body := .json (paymentJson row [row]) } := by
    intro status
    simp [showPayment, showable, hfinite]
  cases hstate : row.state with
  | success =>
    simp only [answerTo, hstate, hshown]
    constructor <;> simp [hstate, nextRetryAt]
  | retried =>
    obtain ⟨due, hdue⟩ := hdue hstate
    simp only [answerTo, hstate, hshown]
    constructor <;> simp [hstate, nextRetryAt, hdue]
  | aborted =>
    simp only [answerTo, hstate]
    constructor <;> simp [hstate, problem]
  | pending =>
    simp only [answerTo, hstate]
    constructor <;> simp [hstate, internalError]

/-! ### Showing a payment -/

/-- What `x`, asked for the payment `key`, and `y`, asked for its attempts, say in `w`. -/
structure Agree (key : String) (w : World) (x y : Response) : Prop where
  unknown : x.status = 404 ↔ ∀ a ∈ w.store.rows, a.key ≠ key
  unknown_attempts : y.status = 404 ↔ ∀ a ∈ w.store.rows, a.key ≠ key
  shown : (∃ a ∈ w.store.rows, a.key = key) → showable (w.store.history key) = true →
    ∃ latest, (w.store.history key).getLast? = some latest ∧
      x = { status := 200, body := .json (paymentJson latest (w.store.history key)) } ∧
      y = { status := 200, body := .json (.list ((w.store.history key).map attemptJson)) }
  hidden : showable (w.store.history key) = false → x = internalError ∧ y = internalError

section

variable {serving : Serving World} (h : ServesAsWorld serving) {key : String} (hkey : Failure.ofTexts? [key] = none)

include h hkey

theorem alwaysEnds_getPayment {ends : Response → World → Prop} :
    (getPayment key).AlwaysEnds serving ends w ↔
      ends (if w.store.history key = [] then paymentNotFound else showPayment 200 (w.store.history key)) w := by
  unfold getPayment
  simp only [bind_eq, alwaysEnds_bind, h.alwaysEnds_history, hkey, Option.elim_none]
  cases w.store.history key <;> simp

theorem alwaysEnds_getAttempts {ends : Response → World → Prop} :
    (getAttempts key).AlwaysEnds serving ends w ↔
      ends (if w.store.history key = [] then paymentNotFound
        else if showable (w.store.history key) then
          { status := 200, body := .json (.list ((w.store.history key).map attemptJson)) }
        else internalError) w := by
  unfold getAttempts
  simp only [bind_eq, alwaysEnds_bind, h.alwaysEnds_history, hkey, Option.elim_none]
  cases hhistory : w.store.history key with
  | nil => simp
  | cons first rest =>
    dsimp only
    split <;> simp_all

/-- A payment and its attempts are shown as the store has them, and asking for them changes nothing. -/
theorem getPayment_served :
    (getPayment key).AlwaysEnds serving (fun x w' => w' = w ∧
      (getAttempts key).AlwaysEnds serving (fun y w'' => w'' = w ∧ Agree key w x y) w') w := by
  rw [alwaysEnds_getPayment h hkey, alwaysEnds_getAttempts h hkey]
  refine ⟨rfl, rfl, ?_⟩
  have hnone : w.store.history key = [] ↔ ∀ a ∈ w.store.rows, a.key ≠ key := by
    rw [List.eq_nil_iff_forall_not_mem]
    simp [Store.mem_history]
  by_cases hnil : w.store.history key = []
  · have hno := hnone.1 hnil
    rw [if_pos hnil, if_pos hnil]
    constructor
    · simpa [paymentNotFound, problem] using hno
    · simpa [paymentNotFound, problem] using hno
    · rintro ⟨a, ha, hakey⟩
      exact absurd hakey (hno a ha)
    · simp [hnil, showable]
  · have hsome := mt hnone.2 hnil
    obtain ⟨latest, hlatest⟩ : ∃ latest, (w.store.history key).getLast? = some latest :=
      Option.ne_none_iff_exists'.1 (by simpa using hnil)
    rw [if_neg hnil, if_neg hnil, showPayment, hlatest]
    cases hshowable : showable (w.store.history key) with
    | true =>
      exact ⟨by simpa using hsome, by simpa using hsome, fun _ _ => ⟨latest, hlatest, rfl, rfl⟩, by simp [hshowable]⟩
    | false => constructor <;> simp [hsome, hshowable, internalError]

end

/-! ### Answering a request -/

theorem dispatch_of_route {r : Request} {t : Target} {route : Route} (hroute : Route.ofPath? t.path = some route)
    (hmethod : ∀ methods, route.methods = some methods → r.method ∈ methods) : dispatch s r t = follow s r route := by
  unfold dispatch
  rw [hroute]
  dsimp only
  split
  · rfl
  · rename_i methods hmethods
    rw [if_pos (List.contains_iff_mem.2 (hmethod methods hmethods))]

theorem handle_alwaysEnds {serving : Serving World} (h : ServesAsWorld serving) {r : Request}
    (hmethod : r.method ≠ "HEAD") {ends : Response → World → Prop}
    (hends : (dispatch s r (Target.ofText r.target)).AlwaysEnds serving
      (fun y w' => ∀ x counts, x.status = y.status → x.body = y.body → ends x { w' with counts := counts }) w) :
    (handle s r).AlwaysEnds serving ends w := by
  unfold handle
  simp only [bind_eq, alwaysEnds_bind]
  refine hends.mono fun y w' hy => ?_
  have hbody : (sent r y).body = y.body := by simp [sent, hmethod]
  -- whether and under which path the answer is counted is of no account
  generalize isTracked (Target.ofText r.target).shownPath = tracked
  generalize normalise (Target.ofText r.target).shownPath = path
  split
  · exact hy y w'.counts rfl rfl
  · cases tracked with
    | true =>
      simp only [if_true, countAnswer, bind_eq, alwaysEnds_bind, h.alwaysEnds_count]
      exact hy (sent r y) _ rfl hbody
    | false => exact hy (sent r y) w'.counts rfl hbody

private theorem handle_served {serving : Serving World} (h : ServesAsWorld serving) {r : Request} {o : Order}
    (hmethod : r.method = "POST") (hroute : Route.ofPath? (Target.ofText r.target).path = some .payments)
    (horder : readOrder r = .ok o) {ends : Response → World → Prop}
    (hends : (submitOrder s r.identity o).AlwaysEnds serving
      (fun y w' => ∀ x counts, x.status = y.status → x.body = y.body → ends x { w' with counts := counts }) w) :
    (handle s r).AlwaysEnds serving ends w := by
  refine handle_alwaysEnds h (by simp [hmethod]) ?_
  rw [dispatch_of_route hroute (by simp [Route.methods, hmethod]), follow, horder]
  exact hends

end Api

/-- Let the store not fail, and let nobody else write.  A request for the order `o` is answered by a conflict if its
payment has attempts already, and then nothing has changed.  Otherwise, whatever the gateway answers or raises, and
wherever it moves the clock, one attempt has been stored, the answer is true of it, and a request for the payment is
shown the same.  Only if the store refuses the reason of a failure, the attempt is pending and the answer an internal
error.  A payment and its attempts are always shown as the store has them. -/
theorem Reachable.answers_truthfully {w : World} {σ : System} (hw : w.Unused) (h : Reachable w σ)
    (hstill : σ.world.Still) (s : Scheduler) (answers : Charge → Except Failure GatewayResult → Prop)
    (moments : DateTime → Prop) (hanswered : ∀ c, ∃ x, answers c x)
    (hcarriesOn : ∀ c e, answers c (.error e) → e.isCancellation = false)
    (hdates : ∀ t, t = σ.world.now ∨ moments t → ∀ outcome, s.policy.DateFits outcome 1 t) {r : Api.Request}
    {o : Api.Order} (hmethod : r.method = "POST")
    (hroute : Api.Route.ofPath? (Api.Target.ofText r.target).path = some .payments) (horder : Api.readOrder r = .ok o)
    {key : String} (hkey : Failure.ofTexts? [key] = none) :
    (Api.handle s r).AlwaysEnds (Service.Serves { answers, moments })
        (fun x w' =>
          ((∃ a ∈ σ.world.store.rows, a.key = o.key) → x.status = 409 ∧ σ.world.Unmoved w') ∧
          ((∀ a ∈ σ.world.store.rows, a.key ≠ o.key) →
            ∃ row, o.Recorded s { answers, moments } σ.world w' row ∧ x.Truthful row ∧
              (x.status = 201 ∨ x.status = 202 → (Api.getPayment o.key).AlwaysEnds (Service.Serves { answers, moments })
                (fun y w'' => w'' = w' ∧ y.status = 200 ∧ y.body = x.body) w')))
        σ.world ∧
      (Api.getPayment key).AlwaysEnds (Service.Serves { answers, moments })
        (fun x w' => w' = σ.world ∧ (Api.getAttempts key).AlwaysEnds (Service.Serves { answers, moments })
          (fun y w'' => w'' = σ.world ∧ Api.Agree key σ.world x y) w')
        σ.world := by
  have hfree : ∀ key : String, ¬False ∧ ¬False := fun _ => ⟨id, id⟩
  have hserves : Program.ServesAsWorld (Service.Serves { answers, moments }) := Service.servesAsWorld hfree
  have haccepted := Api.accepted_of_readOrder horder
  refine ⟨?_, Api.getPayment_served hserves hkey⟩
  refine Api.handle_served hserves hmethod hroute horder ?_
  refine (Api.submitOrder_served (S := { answers, moments }) ⟨hanswered, hcarriesOn⟩ hfree hstill
    (h.log_sound hw).sequenced (h.coherent hw).minted haccepted hdates r.identity).mono ?_
  intro y w' hy x counts hstatus hbody
  rcases hy with ⟨⟨a, ha, hakey⟩, hconflict, hunmoved⟩ | ⟨hfirst, row, hrecorded, rfl⟩
  · refine ⟨fun _ => ⟨hstatus.trans hconflict, ?_⟩, fun hfirst => absurd hakey (hfirst a ha)⟩
    exact ⟨hunmoved.store, hunmoved.charges, hunmoved.breaker, hunmoved.published⟩
  · have htruthful := (Api.truthful_answerTo hrecorded.finite hrecorded.due).of_eq hstatus hbody
    have hhistory : w'.store.history o.key = [row] := by
      rw [← hrecorded.key_eq]
      exact Store.history_eq_singleton hrecorded.rows_eq fun b hb => hrecorded.key_eq ▸ hfirst b hb
    refine ⟨fun ⟨a, ha, hakey⟩ => absurd hakey (hfirst a ha), fun _ => ⟨row, ?_, htruthful, fun hshown => ?_⟩⟩
    · obtain ⟨hrows, hkey, hnumber, hfinite, hdue, hrefused⟩ := hrecorded
      exact ⟨hrows, hkey, hnumber, hfinite, hdue, hrefused⟩
    · rw [Api.alwaysEnds_getPayment hserves haccepted.keyed, hhistory, if_neg (by simp)]
      simp [Api.showPayment, Api.showable, hrecorded.finite, htruthful.shown hshown]

/-! ### A second order -/

namespace Sample

/-- An order for a second payment. -/
def secondOrder : Api.Order := ⟨"second", "charge", .ofHundredths false 100, "EUR", []⟩

/-- A request that carries it. -/
def request : Api.Request where
  method := "POST"
  target := "/payments"
  headers := [("content-type", "application/json")]
  body := "\x7b\"payment_external_key\": \"second\", \"transaction_external_key\": \"charge\", " ++
    "\"amount\": \"1.00\", \"currency\": \"EUR\"\x7d"

theorem readOrder_request : Api.readOrder request = .ok secondOrder := by
  have hread : (Api.readOrder request).toOption = some secondOrder := by decide +kernel
  cases h : Api.readOrder request with
  | error refusal =>
    rw [h] at hread
    cases hread
  | ok o =>
    rw [h] at hread
    exact congrArg Except.ok (Option.some.inj hread)

end Sample

/-- While the attempt of one payment is pending, a second payment is ordered.  Whatever the gateway answers or raises,
the order is answered truthfully, and the first payment is shown as it is. -/
theorem answers_truthfully_of_second_order : ∃ σ, Reachable Sample.world σ ∧
    σ.world.store.rows.map (·.key) = ["order"] ∧
    let service : Service := { answers := fun _ x => ∀ e, x = .error e → e.isCancellation = false }
    (Api.handle Sample.tolerant Sample.request).AlwaysEnds service.Serves
        (fun x w' => ∃ row, w'.store.rows = σ.world.store.rows ++ [row] ∧ row.key = "second" ∧ x.Truthful row)
        σ.world ∧
      (Api.getPayment "order").AlwaysEnds service.Serves
        (fun x w' => w' = σ.world ∧ (Api.getAttempts "order").AlwaysEnds service.Serves
          (fun y w'' => w'' = σ.world ∧ Api.Agree "order" σ.world x y) w')
        σ.world := by
  obtain ⟨σ, h, hworld, -⟩ := Sample.onward_abandoned Sample.tolerant
  have hstill : σ.world.Still := by
    rw [hworld]
    exact ⟨by decide +kernel, by decide +kernel⟩
  have hnow : σ.world.now = Sample.expiry := by rw [hworld]; rfl
  have hkeys : σ.world.store.rows.map (·.key) = ["order"] := by
    rw [hworld]
    decide +kernel
  have hfirst : ∀ a ∈ σ.world.store.rows, a.key ≠ "second" := by
    intro a ha
    have hkey : a.key ∈ σ.world.store.rows.map (·.key) := List.mem_map_of_mem ha
    rw [hkeys, List.mem_singleton] at hkey
    rw [hkey]
    decide
  have hkey : Failure.ofTexts? ["order"] = none := by decide +kernel
  obtain ⟨hhandled, hshown⟩ := (h.reachable .refl).answers_truthfully ⟨rfl, rfl⟩ hstill Sample.tolerant
    (fun _ x => ∀ e, x = .error e → e.isCancellation = false) (fun _ => False)
    (fun _ => ⟨.ok ⟨.success, none⟩, by rintro e ⟨⟩⟩) (fun _ e he => he e rfl)
    (by
      rintro t (rfl | ⟨⟨⟩⟩) outcome
      rw [hnow]
      exact RetryPolicy.dateFits_of_build rfl (by decide) (by decide) outcome 1)
    (r := Sample.request) rfl (by decide +kernel) Sample.readOrder_request hkey
  refine ⟨σ, h.reachable .refl, hkeys, hhandled.mono fun x w' hx => ?_, hshown⟩
  obtain ⟨row, hrecorded, htruthful, -⟩ := hx.2 hfirst
  exact ⟨row, hrecorded.rows_eq, hrecorded.key_eq, htruthful⟩

/-- The gateway raises a failure whose text holds half of a surrogate pair: the answer is an internal error, and the
attempt is left pending. -/
theorem internal_error_of_unwritable_reason :
    let run := (Api.handle Sample.tolerant Sample.request).run (World.reply fun _ _ => .error Sample.unwritable)
      Sample.world
    Sample.world.store.rows = [] ∧ run.1.status = 500 ∧ run.2.store.rows.map (·.state) = [.pending] := by
  refine ⟨rfl, ?_, ?_⟩ <;> decide +kernel

end PaymentRetry
