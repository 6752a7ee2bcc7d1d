import PaymentRetry.Proofs.Api.Routing
import PaymentRetry.Proofs.Number.Storing
import PaymentRetry.Proofs.Turns.Answering
import PaymentRetry.Proofs.Turns.Isolation
import PaymentRetry.Proofs.Workers.Replaying

/-!
# What can be read back

A payment is asked for by a path that names its key, and a key in a path has no slash.  An order may have any key that
is not too long.  So a payment that has been ordered is shown, with all its attempts and no others, to whoever asks for
it, if its key has no slash (`Api.ReadsBack`); if the key has one, the payment is never shown
(`System.Onward.reads_back`), and what is shown in its place may be another payment (`other_payment_of_slash`).
-/

namespace PaymentRetry

open Simulation

-- what a request is answered is reasoned about, and never computed
attribute [local irreducible] Api.handle

namespace Api

open Program

/-! ### Asking and showing -/

/-- Whether `r` is a GET request whose target has the path `path`. -/
structure Request.Gets (r : Request) (path : String) : Prop where
  method : r.method = "GET"
  path : (Target.ofText r.target).path = path.toList

/-- Whether `x` shows `attempts`, by themselves or with their payment. -/
structure Response.Shows (x : Response) (attempts : List Attempt) : Prop where
  status : x.status = 200
  body : x.body = .json (.list (attempts.map attemptJson)) ∨ ∃ latest, x.body = .json (paymentJson latest attempts)

theorem keys_eq_of_map_attemptJson {attempts others : List Attempt}
    (h : attempts.map attemptJson = others.map attemptJson) : attempts.map (·.key) = others.map (·.key) := by
  induction attempts generalizing others with
  | nil => cases others <;> simp_all
  | cons a attempts ih =>
    cases others with
    | nil => cases h
    | cons b others =>
      obtain ⟨hfirst, hrest⟩ := List.cons.inj h
      have hkey : a.key = b.key := by
        simp only [attemptJson, Json.object.injEq, List.cons.injEq, Prod.mk.injEq, Json.text.injEq] at hfirst
        exact hfirst.2.2.1.2
      rw [List.map_cons, List.map_cons, hkey, ih hrest]

/-- Lists of attempts that the same answer shows have the same keys. -/
theorem Response.Shows.keys_eq {x : Response} {attempts others : List Attempt} (h : x.Shows attempts)
    (h' : x.Shows others) : attempts.map (·.key) = others.map (·.key) := by
  rcases h.body with hlist | ⟨latest, hpayment⟩
  · rcases h'.body with hlist' | ⟨latest', hpayment'⟩
    · rw [hlist] at hlist'
      exact keys_eq_of_map_attemptJson (Json.list.inj (Body.json.inj hlist'))
    · rw [hlist] at hpayment'
      cases Body.json.inj hpayment'
  · rcases h'.body with hlist' | ⟨latest', hpayment'⟩
    · rw [hpayment] at hlist'
      cases Body.json.inj hlist'
    · rw [hpayment] at hpayment'
      have hmembers := Body.json.inj hpayment'
      simp only [paymentJson, Json.object.injEq, List.cons.injEq, Prod.mk.injEq, Json.list.injEq] at hmembers
      exact keys_eq_of_map_attemptJson hmembers.2.2.2.2.1.2

/-- Whether all attempts that `x` shows, if it shows any, have keys in `keys`. -/
def Response.ShowsOnly (x : Response) (keys : String → Prop) : Prop :=
  ∀ attempts, x.Shows attempts → ∀ a ∈ attempts, keys a.key

namespace Response

variable {x y : Response} {keys keys' : String → Prop}

theorem Shows.only {s : Store} {key : String} (h : x.Shows (s.history key)) : x.ShowsOnly (· = key) := by
  intro attempts hshows a ha
  have hmem : a.key ∈ (s.history key).map (·.key) := hshows.keys_eq h ▸ List.mem_map_of_mem ha
  obtain ⟨b, hb, hkey⟩ := List.mem_map.1 hmem
  exact hkey.symm.trans (Store.mem_history.1 hb).2

theorem showsOnly_of_status (h : x.status ≠ 200) : x.ShowsOnly keys := fun _ hshows => absurd hshows.status h

theorem ShowsOnly.mono (h : x.ShowsOnly keys) (hkeys : ∀ key, keys key → keys' key) : x.ShowsOnly keys' :=
  fun attempts hshows a ha => hkeys _ (h attempts hshows a ha)

theorem ShowsOnly.of_eq (h : y.ShowsOnly keys) (hstatus : x.status = y.status) (hbody : x.body = y.body) :
    x.ShowsOnly keys :=
  fun attempts hshows => h attempts ⟨hstatus ▸ hshows.status, hbody ▸ hshows.body⟩

end Response

/-! ### Any request -/

section

variable {serving : Serving World} (h : ServesAsWorld serving) {s : Scheduler} {w : World} {r : Request}

include h

private theorem getPayment_shows (key : String) :
    (getPayment key).AlwaysEnds serving (fun x w' => w' = w ∧ x.ShowsOnly (· = key)) w := by
  cases hkey : Failure.ofTexts? [key] with
  | some f =>
    simp only [getPayment, bind_eq, alwaysEnds_bind, h.alwaysEnds_history, hkey, Option.elim_some]
    exact ⟨rfl, Response.showsOnly_of_status (by decide)⟩
  | none =>
    rw [alwaysEnds_getPayment h hkey]
    refine ⟨rfl, ?_⟩
    split
    · exact Response.showsOnly_of_status (by decide)
    · unfold showPayment
      split
      · exact Response.showsOnly_of_status (by decide)
      · split
        · exact Response.Shows.only (s := w.store) ⟨rfl, .inr ⟨_, rfl⟩⟩
        · exact Response.showsOnly_of_status (by decide)

private theorem getAttempts_shows (key : String) :
    (getAttempts key).AlwaysEnds serving (fun x w' => w' = w ∧ x.ShowsOnly (· = key)) w := by
  cases hkey : Failure.ofTexts? [key] with
  | some f =>
    simp only [getAttempts, bind_eq, alwaysEnds_bind, h.alwaysEnds_history, hkey, Option.elim_some]
    exact ⟨rfl, Response.showsOnly_of_status (by decide)⟩
  | none =>
    rw [alwaysEnds_getAttempts h hkey]
    refine ⟨rfl, ?_⟩
    split
    · exact Response.showsOnly_of_status (by decide)
    · split
      · exact Response.Shows.only (s := w.store) ⟨rfl, .inl rfl⟩
      · exact Response.showsOnly_of_status (by decide)

private theorem follow_shows {route : Route} (hroute : route ≠ .payments) :
    (follow s r route).AlwaysEnds serving (fun x w' => w' = w ∧ x.ShowsOnly (route.key? = some ·)) w := by
  cases route with
  | payments => exact absurd rfl hroute
  | payment key => exact (getPayment_shows h key).mono fun x w' hx => ⟨hx.1, hx.2.mono fun _ => by rintro rfl; rfl⟩
  | attempts key => exact (getAttempts_shows h key).mono fun x w' hx => ⟨hx.1, hx.2.mono fun _ => by rintro rfl; rfl⟩
  | metrics | manual =>
    refine ⟨rfl, fun attempts hshows => ?_⟩
    rcases hshows.body with hbody | ⟨latest, hbody⟩ <;> cases hbody
  | health =>
    refine ⟨rfl, fun attempts hshows => ?_⟩
    rcases hshows.body with hbody | ⟨latest, hbody⟩
    · cases hbody
    · simp [paymentJson] at hbody

private theorem dispatch_shows (hmethod : r.method = "GET") (t : Target) :
    (dispatch s r t).AlwaysEnds serving (fun x w' => w' = w ∧
      x.ShowsOnly fun key => ∃ route, Route.ofPath? t.path = some route ∧ route.key? = some key) w := by
  cases hroute : Route.ofPath? t.path with
  | none =>
    unfold dispatch
    rw [hroute]
    dsimp only
    split
    · exact ⟨rfl, Response.showsOnly_of_status (by simp [redirect])⟩
    · exact ⟨rfl, Response.showsOnly_of_status (by decide)⟩
  | some route =>
    by_cases hpayments : route = .payments
    · subst hpayments
      simp only [dispatch, hroute, Route.methods, hmethod]
      exact ⟨rfl, Response.showsOnly_of_status (by decide)⟩
    · have hget : ∀ methods, route.methods = some methods → r.method ∈ methods := by
        intro methods hmethods
        rw [hmethod]
        cases route with
        | payments => exact absurd rfl hpayments
        | metrics => cases hmethods
        | payment | attempts | health | manual =>
          cases hmethods
          decide
      rw [dispatch_of_route hroute hget]
      exact (follow_shows h hpayments).mono fun x w' hx => ⟨hx.1, hx.2.mono fun _ hkey => ⟨route, rfl, hkey⟩⟩

/-- A GET request is shown attempts only of a key that its path names, and leaves the store alone. -/
theorem get_shows (hmethod : r.method = "GET") : (handle s r).AlwaysEnds serving (fun x w' => w'.store = w.store ∧
    x.ShowsOnly fun key => IsSegment key ∧ Names key (String.ofList (Target.ofText r.target).path)) w := by
  refine handle_alwaysEnds h (by simp [hmethod]) ?_
  refine (dispatch_shows h hmethod _).mono fun y w' hy x counts hstatus hbody => ⟨by rw [hy.1], ?_⟩
  refine (hy.2.of_eq hstatus hbody).mono fun key hkey => ?_
  rw [← Route.names_iff, String.toList_ofList]
  exact hkey

end

/-! ### The requests for a payment -/

/-- How GET requests for the payment `key`, and for its attempts, are answered in `w`.  They are shown all its rows and
no others, unless an amount cannot be shown. -/
structure ReadsBack (serving : Serving World) (s : Scheduler) (w : World) (key : String) : Prop where
  /-- Both paths can be asked for. -/
  addressed : ∀ path, path = "/payments/" ++ key ∨ path = "/payments/" ++ key ++ "/attempts" →
    ∃ target, (Target.ofText target).path = path.toList
  /-- What is shown are the rows of the payment, each once. -/
  complete : (w.store.history key).Perm (w.store.rows.filter (·.key = key))
  payment : showable (w.store.history key) = true → ∀ r : Request, r.Gets ("/payments/" ++ key) →
    (handle s r).AlwaysEnds serving (fun x w' => w'.store = w.store ∧ x.status = 200 ∧
      ∃ latest, (w.store.history key).getLast? = some latest ∧
        x.body = .json (paymentJson latest (w.store.history key))) w
  attempts : showable (w.store.history key) = true → ∀ r : Request, r.Gets ("/payments/" ++ key ++ "/attempts") →
    (handle s r).AlwaysEnds serving (fun x w' => w'.store = w.store ∧ x.status = 200 ∧
      x.body = .json (.list ((w.store.history key).map attemptJson))) w
  unshowable : showable (w.store.history key) = false →
    ∀ r : Request, r.Gets ("/payments/" ++ key) ∨ r.Gets ("/payments/" ++ key ++ "/attempts") →
      (handle s r).AlwaysEnds serving (fun x w' => w'.store = w.store ∧ x.status = 500) w
  /-- Nothing else is shown in its place. -/
  own : ∀ r : Request, r.Gets ("/payments/" ++ key) ∨ r.Gets ("/payments/" ++ key ++ "/attempts") →
    (handle s r).AlwaysEnds serving (fun x _ => x.ShowsOnly (· = key)) w

section

variable {serving : Serving World} (h : ServesAsWorld serving) {s : Scheduler} {w : World} {r : Request} {key : String}
  (hkey : IsSegment key) (htexts : Failure.ofTexts? [key] = none) (hsome : ∃ a ∈ w.store.rows, a.key = key)

include h

/-- A request for one of the two paths of a payment is answered along the route. -/
private theorem get_route {route : Route} {path : String} (hr : r.Gets path)
    (hroute : Route.ofPath? path.toList = some route) (hfor : route.key? = some key) {ends : Response → World → Prop}
    (hends : (follow s r route).AlwaysEnds serving
      (fun y w' => ∀ x counts, x.status = y.status → x.body = y.body → ends x { w' with counts := counts }) w) :
    (handle s r).AlwaysEnds serving ends w := by
  refine handle_alwaysEnds h (by simp [hr.method]) ?_
  rw [dispatch_of_route (hr.path ▸ hroute) ?_]
  · exact hends
  · intro methods hmethods
    rw [hr.method]
    cases route with
    | payment | attempts =>
      cases hmethods
      decide
    | payments | metrics | health | manual => cases hfor

include hkey htexts hsome

theorem readsBack : ReadsBack serving s w key := by
  have hnonempty : w.store.history key ≠ [] := by
    obtain ⟨a, ha, hakey⟩ := hsome
    exact List.ne_nil_of_mem (Store.mem_history.2 ⟨ha, hakey⟩)
  obtain ⟨latest, hlatest⟩ : ∃ latest, (w.store.history key).getLast? = some latest :=
    Option.ne_none_iff_exists'.1 (by simpa using hnonempty)
  have hpayment : Route.ofPath? ("/payments/" ++ key).toList = some (.payment key) :=
    Route.ofPath?_eq_payment_iff.2 ⟨hkey, rfl⟩
  have hattempts : Route.ofPath? ("/payments/" ++ key ++ "/attempts").toList = some (.attempts key) :=
    Route.ofPath?_eq_attempts_iff.2 ⟨hkey, "", .inl rfl, by simp⟩
  constructor
  · exact fun path hpath => Target.exists_written hkey hpath
  · exact List.mergeSort_perm _ _
  · intro hshowable r hr
    refine get_route h hr hpayment rfl ?_
    rw [follow, alwaysEnds_getPayment h htexts, if_neg hnonempty, showPayment, hlatest]
    dsimp only
    rw [if_pos hshowable]
    exact fun x counts hstatus hbody => ⟨rfl, hstatus, latest, rfl, hbody⟩
  · intro hshowable r hr
    refine get_route h hr hattempts rfl ?_
    rw [follow, alwaysEnds_getAttempts h htexts, if_neg hnonempty, if_pos hshowable]
    exact fun x counts hstatus hbody => ⟨rfl, hstatus, hbody⟩
  · intro hhidden r hr
    have hnot : ¬showable (w.store.history key) = true := by simp [hhidden]
    rcases hr with hr | hr
    · refine get_route h hr hpayment rfl ?_
      rw [follow, alwaysEnds_getPayment h htexts, if_neg hnonempty, showPayment, hlatest]
      dsimp only
      rw [if_neg hnot]
      exact fun x counts hstatus _ => ⟨rfl, hstatus⟩
    · refine get_route h hr hattempts rfl ?_
      rw [follow, alwaysEnds_getAttempts h htexts, if_neg hnonempty, if_neg hnot]
      exact fun x counts hstatus _ => ⟨rfl, hstatus⟩
  · intro r hr
    have hmethod : r.method = "GET" := hr.elim (·.method) (·.method)
    have hnames : Names key (String.ofList (Target.ofText r.target).path) := by
      rcases hr with hr | hr
      · rw [hr.path, String.ofList_toList]
        exact .payment
      · rw [hr.path, String.ofList_toList]
        simpa using (.attempts (.inl rfl) : Names key _)
    refine (get_shows h hmethod).mono fun x w' hx => hx.2.mono fun key' hkey' => ?_
    exact Route.eq_of_names hkey'.1 hkey hkey'.2 hnames

end

end Api

/-! ### Payments that have been ordered -/

theorem Api.Order.key_checked {j : Json} {o : Order} (h : ofJson j = .ok o) :
    o.key ≠ "" ∧ Failure.ofTexts? [o.key] = none := by
  have hmembers : ofMembers j = .ok o := by
    unfold ofJson at h
    split at h
    · exact h
    · cases h
  obtain ⟨⟨_, hkey⟩, -⟩ := members_checked hmembers
  obtain ⟨hformed, hlength, -⟩ := Validation.boundedText_eq_ok hkey
  refine ⟨?_, Failure.ofTexts?_of_wellFormed (by simpa using hformed)⟩
  rintro hempty
  rw [hempty] at hlength
  exact absurd hlength (by decide)

/-- The amount of an order can be held by a double. -/
theorem Api.Order.isFinite_amount {j : Json} {o : Order} (h : ofJson j = .ok o) :
    o.amount.toBinary64.isFinite = true := by
  obtain ⟨_, hchecked⟩ := amount_checked h
  obtain ⟨c, e, hvalue, -, hlt, -⟩ := Validation.positiveDecimal_eq_ok hchecked
  rw [hvalue]
  exact Decimal.isFinite_toBinary64 (by linarith)

theorem Decimal.isFinite_of_toBinary64 {x : Decimal} (h : x.toBinary64.isFinite = true) : x.isFinite = true := by
  cases x with
  | finite negative c e => rfl
  | infinite negative => cases h
  | nan signalling => cases h

/-- Whether `p` has the amount of an order. -/
def Submission.HasOrderedAmount (p : Submission) : Prop := ∃ j o, Api.Order.ofJson j = .ok o ∧ p.amount = o.amount

/-- If all that is submitted for `key` has amounts of orders, then its attempts can be shown at all times. -/
theorem System.Onward.showable {may : Permission} {w : World} {σ : System} (hw : w.Unused) {key : String}
    (hmay : ∀ p, may.Submits p → p.key = some key → p.HasOrderedAmount) (h : Onward may { world := w } σ) :
    Api.showable (σ.world.store.history key) = true := by
  have hamounts : ∀ a ∈ σ.world.store.rows, a.key = key → a.amount.toBinary64.isFinite = true := by
    refine h.amounts hw (P := fun x => x.toBinary64.isFinite = true) (fun p hp hkey => ?_) fun x hx =>
      (Decimal.stored_stored hx).1
    obtain ⟨j, o, horder, hamount⟩ := hmay p hp hkey
    exact hamount ▸ Api.Order.isFinite_amount horder
  refine List.all_eq_true.2 fun a ha => ?_
  obtain ⟨hmem, hkey⟩ := Store.mem_history.1 ha
  exact Decimal.isFinite_of_toBinary64 (hamounts a hmem hkey)

/-- Let the order `o` have a key with attempts in `σ`, wherever its workers stand.  If the key has no slash, then
requests for the payment are shown all its attempts and no others, and an amount that was ordered can be shown.  If the
key has a slash, then no request is shown any of its attempts. -/
theorem System.Onward.reads_back {may : Permission} {w : World} {σ : System} (hw : w.Unused)
    (h : Onward may { world := w } σ) {serving : Program.Serving World} (hserving : Program.ServesAsWorld serving)
    (s : Scheduler) {j : Json} {o : Api.Order} (horder : Api.Order.ofJson j = .ok o)
    (hsome : ∃ a ∈ σ.world.store.rows, a.key = o.key) :
    ('/' ∉ o.key.toList → Api.ReadsBack serving s σ.world o.key ∧
      ((∀ p, may.Submits p → p.key = some o.key → p.HasOrderedAmount) →
        Api.showable (σ.world.store.history o.key) = true)) ∧
    ('/' ∈ o.key.toList → ∀ r : Api.Request, r.method = "GET" → (Api.handle s r).AlwaysEnds serving
      (fun x w' => w'.store = σ.world.store ∧ x.ShowsOnly (· ≠ o.key)) σ.world) := by
  obtain ⟨hnonempty, htexts⟩ := Api.Order.key_checked horder
  constructor
  · exact fun hslash => ⟨Api.readsBack hserving ⟨hnonempty, hslash⟩ htexts hsome, fun hmay => h.showable hw hmay⟩
  · intro hslash r hmethod
    refine (Api.get_shows hserving hmethod).mono fun x w' hx => ⟨hx.1, hx.2.mono fun key hkey heq => ?_⟩
    exact hkey.1.unslashed (heq ▸ hslash)

/-! ### Keys with and without a slash -/

namespace Sample

/-- An order of one euro under `key`. -/
def ordered (key : String) : Api.Order := ⟨key, "charge", .ofHundredths false 100, "EUR", []⟩

/-- The order as it is sent. -/
def sent (key : String) : Json :=
  .object [("payment_external_key", .text key), ("transaction_external_key", .text "charge"),
    ("amount", .text "1.00"), ("currency", .text "EUR")]

/-- A request to be shown what `target` names. -/
def asking (target : String) : Api.Request := { method := "GET", target := target }

/-- Two payments have been declined. -/
theorem reachable_slashed :
    ∃ σ, Reachable world σ ∧ σ.world = submitting "order/attempts" (submitting "order" world) := by
  obtain ⟨_, hfirst, -⟩ := Reachable.refl.alone (fun _ _ => .ok ⟨.businessFailure, none⟩) (w := world) (k := 0) rfl
    daily (.submit { submission with key := some "order" })
  obtain ⟨_, hsecond, -⟩ := hfirst.alone (fun _ _ => .ok ⟨.businessFailure, none⟩) (k := 1) rfl daily
    (.submit { submission with key := some "order/attempts" })
  exact ⟨_, hsecond, by rw [submitting, submitting]⟩

end Sample

/-- A payment that has been retried is shown with both attempts. -/
theorem reads_back_of_retry : ∃ σ, System.Onward Sample.submitsOrPolls { world := Sample.world } σ ∧
    σ.world.store.rows.map (·.number) = [1, 2] ∧
    (Api.handle Sample.scheduler (Sample.asking "/payments/order/attempts")).AlwaysEnds
      (Service.Serves { answers := fun c x => x = Sample.accepts c })
      (fun x _ => x.status = 200 ∧ x.body = .json (.list ((σ.world.store.history "order").map Api.attemptJson)))
      σ.world := by
  obtain ⟨σ, h, hworld, -⟩ := Sample.onward_retried
  have hsome : ∃ a ∈ σ.world.store.rows, a.key = "order" := by
    rw [hworld]
    decide +kernel
  have hserves : Program.ServesAsWorld (Service.Serves { answers := fun c x => x = Sample.accepts c }) :=
    Service.servesAsWorld fun _ => ⟨id, id⟩
  have horder : Api.Order.ofJson (Sample.sent "order") = .ok (Sample.ordered "order") := rfl
  obtain ⟨hreads, hshowable⟩ := (h.reads_back ⟨rfl, rfl⟩ hserves Sample.scheduler horder hsome).1 (by decide)
  have hshown := hshowable fun p hp _ => ⟨_, _, horder, by rw [Sample.eq_of_submits hp]; rfl⟩
  have hgets : (Sample.asking "/payments/order/attempts").Gets ("/payments/" ++ "order" ++ "/attempts") :=
    ⟨rfl, by decide +kernel⟩
  refine ⟨σ, h, by rw [hworld]; decide +kernel, ?_⟩
  exact (hreads.attempts hshown _ hgets).mono fun x _ hx => hx.2

/-- Two payments have been ordered, `order` and `order/attempts`.  Whoever asks for the second is shown the attempts of
the first. -/
theorem other_payment_of_slash : ∃ σ o, Reachable Sample.world σ ∧
    Api.Order.ofJson (Sample.sent "order/attempts") = .ok o ∧ o.key = "order/attempts" ∧
    σ.world.store.rows.map (·.key) = ["order", o.key] ∧
    (Sample.asking "/payments/order%2Fattempts").Gets ("/payments/" ++ o.key) ∧
    ∀ serving, Program.ServesAsWorld serving →
      (Api.handle Sample.daily (Sample.asking "/payments/order%2Fattempts")).AlwaysEnds serving
        (fun x _ => x.status = 200 ∧ ∃ a, a.key = "order" ∧ x.body = .json (.list [Api.attemptJson a])) σ.world := by
  obtain ⟨σ, h, hworld⟩ := Sample.reachable_slashed
  have hrows : (σ.world.store.rows.map fun a => (a.key, a.amount.isFinite)) =
      [("order", true), ("order/attempts", true)] := by
    rw [hworld]
    decide +kernel
  have hgets : (Sample.asking "/payments/order%2Fattempts").Gets ("/payments/" ++ "order" ++ "/attempts") :=
    ⟨rfl, by decide +kernel⟩
  obtain ⟨a, rest, hcons, ha, hrest⟩ := List.map_eq_cons_iff.1 hrows
  obtain ⟨b, rest', rfl, hb, hnil⟩ := List.map_eq_cons_iff.1 hrest
  obtain rfl := List.map_eq_nil_iff.1 hnil
  obtain ⟨hakey, hfinite⟩ := Prod.mk.inj ha
  obtain ⟨hbkey, -⟩ := Prod.mk.inj hb
  refine ⟨σ, Sample.ordered "order/attempts", h, rfl, rfl, ?_, ⟨rfl, by decide +kernel⟩, fun serving hserving => ?_⟩
  · simp [hcons, hakey, hbkey, Sample.ordered]
  · have hsome : ∃ a ∈ σ.world.store.rows, a.key = "order" := ⟨a, by simp [hcons], hakey⟩
    have hreads := Api.readsBack hserving (s := Sample.daily) ⟨by decide, by decide⟩ (by decide +kernel) hsome
    have hhistory : σ.world.store.history "order" = [a] := by
      have hperm := hreads.complete
      rw [hcons] at hperm
      simpa [hakey, hbkey] using hperm
    have hshown := hreads.attempts (by simp [hhistory, Api.showable, hfinite]) _ hgets
    refine hshown.mono fun x _ hx => ⟨hx.2.1, a, hakey, ?_⟩
    rw [hx.2.2, hhistory]
    rfl

end PaymentRetry
