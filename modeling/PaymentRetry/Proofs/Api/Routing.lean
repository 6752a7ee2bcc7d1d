import Mathlib.Data.List.Basic
import PaymentRetry.Proofs.Api.Normalising

/-!
# Targets and routes

A path has the route of a payment, or of its attempts, if and only if it names a key (`Route.ofPath?_eq_payment_iff`,
`Route.ofPath?_eq_attempts_iff`); so it names at most one.  Every path of a key is that of a target: what is written
with percent signs is read back, and no part of it is taken for a step to another level (`Target.path_written`).
-/

namespace PaymentRetry.Api

/-! ### Routes -/

namespace Route

variable {key : String} {path below : List Char}

theorem ofPath?_below (below : List Char) : ofPath? ("/payments/".toList ++ below) = belowPayments? below := by
  have hafter : after? "/payments" ("/payments/".toList ++ below) = some ('/' :: below) := after?_append "/payments" _
  have hopen : atEnd ('/' :: below) = false := by simp [atEnd]
  simp only [ofPath?, hafter, hopen, Bool.false_eq_true, if_false]

theorem belowPayments?_eq_payment_iff : belowPayments? below = some (payment key) ↔
    IsSegment key ∧ below = key.toList := by
  constructor
  · intro h
    unfold belowPayments? at h
    split at h
    · cases h
    · rename_i segment hsegment
      obtain rfl := payment.inj (Option.some.inj h)
      obtain ⟨hkey, hbelow, -⟩ := segment?_eq_some_iff.1 ((String.toList_ofList (l := segment)).symm ▸ hsegment)
      exact ⟨hkey, by rw [hbelow, List.append_nil]⟩
    · split at h
      · split at h
        · cases h
        · cases h
      · cases h
  · rintro ⟨hkey, rfl⟩
    simp only [belowPayments?, segment?_key hkey, String.ofList_toList]

theorem belowPayments?_eq_attempts_iff : belowPayments? below = some (attempts key) ↔
    IsSegment key ∧ ∃ tail, (tail = "" ∨ tail = "\n") ∧ below = key.toList ++ ("/attempts".toList ++ tail.toList) := by
  constructor
  · intro h
    unfold belowPayments? at h
    split at h
    · cases h
    · cases h
    · rename_i segment rest hsome hsegment
      split at h
      · rename_i tail htail
        split at h
        · rename_i hend
          obtain rfl := attempts.inj (Option.some.inj h)
          obtain ⟨hkey, hbelow, -⟩ := segment?_eq_some_iff.1 ((String.toList_ofList (l := segment)).symm ▸ hsegment)
          refine ⟨hkey, String.ofList tail, ?_, ?_⟩
          · exact (atEnd_iff.1 hend).imp (congrArg String.ofList) (congrArg String.ofList)
          · rw [hbelow, after?_eq_some_iff.1 htail, String.toList_ofList (l := tail)]
        · cases h
      · cases h
  · rintro ⟨hkey, tail, htail, rfl⟩
    simp only [belowPayments?, segment?_attempts hkey]
    simp only [attempts_append, after?_attempts, atEnd_toList htail, if_true, String.ofList_toList]

/-- The key that a route is for. -/
def key? : Route → Option String
  | payment key | attempts key => some key
  | _ => none

theorem exists_below {route : Route} (h : ofPath? path = some route) (hkey : route.key? = some key) :
    ∃ below, path = "/payments/".toList ++ below ∧ belowPayments? below = some route := by
  unfold ofPath? at h
  split at h
  · rename_i rest hafter
    split at h
    · cases h
      cases hkey
    · split at h
      · rename_i below _
        exact ⟨below, by rw [after?_eq_some_iff.1 hafter]; rfl, h⟩
      · cases h
  · split at h
    · split at h
      · cases h
        cases hkey
      · cases h
    · split at h
      · split at h
        · cases h
          cases hkey
        · cases h
      · split at h
        · cases h
          cases hkey
        · cases h

theorem ofPath?_eq_payment_iff : ofPath? path = some (payment key) ↔
    IsSegment key ∧ path = ("/payments/" ++ key).toList := by
  rw [String.toList_append]
  constructor
  · intro h
    obtain ⟨below, rfl, hbelow⟩ := exists_below h rfl
    obtain ⟨hkey, rfl⟩ := belowPayments?_eq_payment_iff.1 hbelow
    exact ⟨hkey, rfl⟩
  · rintro ⟨hkey, rfl⟩
    rw [ofPath?_below]
    exact belowPayments?_eq_payment_iff.2 ⟨hkey, rfl⟩

theorem ofPath?_eq_attempts_iff : ofPath? path = some (attempts key) ↔ IsSegment key ∧
    ∃ tail, (tail = "" ∨ tail = "\n") ∧ path = ("/payments/" ++ key ++ "/attempts" ++ tail).toList := by
  simp only [String.toList_append, List.append_assoc]
  constructor
  · intro h
    obtain ⟨below, rfl, hbelow⟩ := exists_below h rfl
    obtain ⟨hkey, tail, htail, rfl⟩ := belowPayments?_eq_attempts_iff.1 hbelow
    exact ⟨hkey, tail, htail, rfl⟩
  · rintro ⟨hkey, tail, htail, rfl⟩
    rw [ofPath?_below]
    exact belowPayments?_eq_attempts_iff.2 ⟨hkey, tail, htail, rfl⟩

/-- A path has a route that is for `key` if and only if it names `key`. -/
theorem names_iff {path : String} :
    (∃ route, ofPath? path.toList = some route ∧ route.key? = some key) ↔ IsSegment key ∧ Names key path := by
  constructor
  · rintro ⟨route, hroute, hkey⟩
    cases route with
    | payment key' =>
      obtain rfl := Option.some.inj hkey
      obtain ⟨hsegment, hpath⟩ := ofPath?_eq_payment_iff.1 hroute
      rw [String.toList_inj] at hpath
      exact ⟨hsegment, hpath ▸ .payment⟩
    | attempts key' =>
      obtain rfl := Option.some.inj hkey
      obtain ⟨hsegment, tail, htail, hpath⟩ := ofPath?_eq_attempts_iff.1 hroute
      rw [String.toList_inj] at hpath
      exact ⟨hsegment, hpath ▸ .attempts htail⟩
    | payments | metrics | health | manual => cases hkey
  · rintro ⟨hsegment, hnames⟩
    cases hnames with
    | payment => exact ⟨_, ofPath?_eq_payment_iff.2 ⟨hsegment, rfl⟩, rfl⟩
    | attempts htail => exact ⟨_, ofPath?_eq_attempts_iff.2 ⟨hsegment, _, htail, rfl⟩, rfl⟩

/-- A path names at most one key. -/
theorem eq_of_names {key' path : String} (hkey : IsSegment key) (hkey' : IsSegment key') (h : Names key path)
    (h' : Names key' path) : key = key' := by
  obtain ⟨route, hroute, hfor⟩ := names_iff.2 ⟨hkey, h⟩
  obtain ⟨route', hroute', hfor'⟩ := names_iff.2 ⟨hkey', h'⟩
  rw [hroute] at hroute'
  cases hroute'
  exact Option.some.inj (hfor.symm.trans hfor')

end Route

/-! ### Targets -/

namespace Target

open Text

/-- A path put together from its parts. -/
def joined (parts : List (List Char)) : List Char := ['/'].intercalate ([] :: parts)

/-- Whether a path may hold `part` as it is: it has no slash, and steps to no other level. -/
structure IsLiteral (part : List Char) : Prop where
  unslashed : '/' ∉ part
  notDot : part ≠ ['.']
  notDots : part ≠ ['.', '.']

private theorem joined_cons (part : List Char) (parts : List (List Char)) :
    joined (part :: parts) = '/' :: (part ++ (if parts = [] then [] else joined parts)) := by
  cases parts <;> simp [joined, List.intercalate]

private theorem percentEncode_slash {part : List Char} (h : '/' ∉ part) :
    percentEncode ['/'] part = percentEncode [] part := by
  refine List.flatMap_congr fun c hc => ?_
  have hne : c ≠ '/' := fun heq => h (heq ▸ hc)
  simp [hne]

private theorem percentEncode_joined {parts : List (List Char)} (h : ∀ part ∈ parts, '/' ∉ part) :
    percentEncode ['/'] (joined parts) = joined (parts.map (percentEncode [])) := by
  induction parts with
  | nil => rfl
  | cons part parts ih =>
    have hrest := ih fun part' hpart' => h part' (List.mem_cons_of_mem _ hpart')
    have hslash : percentEncode ['/'] ('/' :: (part ++ (if parts = [] then [] else joined parts))) =
        '/' :: (percentEncode ['/'] part ++ percentEncode ['/'] (if parts = [] then [] else joined parts)) := by
      simp [percentEncode]
    rw [joined_cons, hslash, percentEncode_slash (h part List.mem_cons_self), List.map_cons, joined_cons]
    cases parts with
    | nil => rfl
    | cons part' parts => simpa using hrest

private theorem percentEncode_injective : Function.Injective (percentEncode []) :=
  Function.LeftInverse.injective (percentDecode_percentEncode List.not_mem_nil)

private theorem IsLiteral.percentEncode {part : List Char} (h : IsLiteral part) :
    IsLiteral (percentEncode [] part) where
  unslashed hmem := by
    rcases mem_percentEncode hmem with hplain | hsafe | hsign
    · exact absurd hplain (by decide)
    · cases hsafe
    · exact absurd hsign (by decide)
  notDot heq := h.notDot (percentEncode_injective heq)
  notDots heq := h.notDots (percentEncode_injective heq)

private theorem dropDots_joined {parts : List (List Char)} (h : ∀ part ∈ parts, IsLiteral part) :
    dropDots (joined parts) = joined parts := by
  have hslash : ∀ part ∈ [] :: parts, '/' ∉ part := by simpa using fun part hpart => (h part hpart).unslashed
  have hsplit : (joined parts).splitOn '/' = [] :: parts :=
    List.splitOn_intercalate '/' hslash (List.cons_ne_nil _ _)
  have hdot : ['.'] ∉ parts := fun hmem => (h _ hmem).notDot rfl
  have hdots : ['.', '.'] ∉ parts := fun hmem => (h _ hmem).notDots rfl
  simp [dropDots, hsplit, hdot, hdots]

/-- The path of a target without a query or a fragment, which begins with one slash. -/
private theorem path_ofText {text : List Char} {c : Char} {rest : List Char} (htext : text = '/' :: c :: rest)
    (hc : c ≠ '/') (hfragment : '#' ∉ text) (hquery : '?' ∉ text) (hdots : dropDots text = text) :
    (ofText (String.ofList text)).path = percentDecode text := by
  have hall : ∀ b : Char, b ∉ text → text.takeWhile (· != b) = text := fun b hb =>
    List.takeWhile_eq_self_iff.2 fun b' hb' => bne_iff_ne.2 fun heq => hb (heq ▸ hb')
  have hhost : withoutHost text = text := by
    rw [htext]
    unfold withoutHost
    split
    · rename_i heq
      cases heq
      exact absurd rfl hc
    · rfl
  have hslash : '/' :: text.dropWhile (· == '/') = text := by simp [htext, hc]
  have hnonempty : text.isEmpty = false := by rw [htext]; rfl
  simp only [ofText, String.toList_ofList, hall _ hfragment, hhost, hall _ hquery, hslash, hdots, hnonempty,
    Bool.false_eq_true, if_false]

theorem path_written {part : List Char} {parts : List (List Char)} (hpart : part ≠ [])
    (h : ∀ part' ∈ part :: parts, IsLiteral part') :
    (ofText (String.ofList (percentEncode ['/'] (joined (part :: parts))))).path = joined (part :: parts) := by
  have hliteral := fun part' hpart' => (h part' hpart').percentEncode
  have hwritten := percentEncode_joined fun part' hpart' => (h part' hpart').unslashed
  have hmem : ∀ c, c = '#' ∨ c = '?' → c ∉ percentEncode ['/'] (joined (part :: parts)) := by
    rintro c hc hmem
    rcases mem_percentEncode hmem with hplain | hsafe | rfl
    · rcases hc with rfl | rfl <;> exact absurd hplain (by decide)
    · rcases hc with rfl | rfl <;> exact absurd hsafe (by decide)
    · exact absurd hc (by decide)
  obtain ⟨c, rest, hfirst⟩ : ∃ c rest, percentEncode [] part = c :: rest :=
    List.exists_cons_of_ne_nil fun heq => hpart (percentEncode_injective heq)
  have hc : c ≠ '/' := by
    rintro rfl
    exact (hliteral _ List.mem_cons_self).unslashed (hfirst ▸ List.mem_cons_self)
  have hdots : dropDots (percentEncode ['/'] (joined (part :: parts))) =
      percentEncode ['/'] (joined (part :: parts)) := by
    rw [hwritten]
    exact dropDots_joined (by simpa using hliteral)
  have htext : percentEncode ['/'] (joined (part :: parts)) = '/' :: c :: (rest ++
      if parts.map (percentEncode []) = [] then [] else joined (parts.map (percentEncode []))) := by
    rw [hwritten, List.map_cons, joined_cons, hfirst]
    rfl
  rw [path_ofText htext hc (hmem _ (.inl rfl)) (hmem _ (.inr rfl)) hdots, percentDecode_percentEncode (by decide)]

/-- The path of every payment is that of a target, and so is the path of its attempts. -/
theorem exists_written {key path : String} (hkey : IsSegment key)
    (hpath : path = "/payments/" ++ key ∨ path = "/payments/" ++ key ++ "/attempts") :
    ∃ target, (ofText target).path = path.toList := by
  -- a key of dots is not taken for a step to another level if its dots are written with percent signs
  by_cases hdot : key = "."
  · subst hdot
    rcases hpath with rfl | rfl
    · exact ⟨"/payments/%2E", by decide +kernel⟩
    · exact ⟨"/payments/%2E/attempts", by decide +kernel⟩
  by_cases hdots : key = ".."
  · subst hdots
    rcases hpath with rfl | rfl
    · exact ⟨"/payments/%2E%2E", by decide +kernel⟩
    · exact ⟨"/payments/%2E%2E/attempts", by decide +kernel⟩
  have hpayments : IsLiteral "payments".toList := ⟨by decide, by decide, by decide⟩
  have hattempts : IsLiteral "attempts".toList := ⟨by decide, by decide, by decide⟩
  have hliteral : IsLiteral key.toList :=
    ⟨hkey.unslashed, fun h => hdot (String.toList_inj.1 h), fun h => hdots (String.toList_inj.1 h)⟩
  rcases hpath with rfl | rfl
  · have hpath : joined ["payments".toList, key.toList] = ("/payments/" ++ key).toList := by
      simp [joined, List.intercalate]
    exact ⟨_, hpath ▸ path_written (by decide) (by simpa using ⟨hpayments, hliteral⟩)⟩
  · have hpath : joined ["payments".toList, key.toList, "attempts".toList] =
        ("/payments/" ++ key ++ "/attempts").toList := by
      simp [joined, List.intercalate]
    exact ⟨_, hpath ▸ path_written (by decide) (by simpa using ⟨hpayments, hliteral, hattempts⟩)⟩

end Target

end PaymentRetry.Api
