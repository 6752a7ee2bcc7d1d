import Mathlib.Data.List.TakeWhile
import PaymentRetry.Api.Path

/-!
# Paths without keys

Paths are counted with a placeholder for the external key of the payment.  What is meant by it are two patterns: a path
is rewritten by the first one that matches it from its beginning to its end, where a key takes as many characters as it
can and may end earlier if the rest of the pattern wants it (`Pattern.rewrite?`).  Taking the path apart at the slash
that ends the key comes to the same (`normalise_eq_rewrite`).

So no two keys can be told apart in a normal path, and nothing else is changed (`normalise_hides_keys`).
-/

namespace PaymentRetry.Api

/-! ### Taking paths apart -/

/-- Whether `key` may stand in a path: it is not empty and has no slash. -/
structure IsSegment (key : String) : Prop where
  nonempty : key ≠ ""
  unslashed : '/' ∉ key.toList

theorem after?_eq_some_iff {head : String} {cs rest : List Char} :
    after? head cs = some rest ↔ cs = head.toList ++ rest := by
  unfold after?
  constructor
  · intro h
    split at h
    · rename_i hhead
      rw [Option.some.injEq] at h
      rw [← h]
      exact List.prefix_iff_eq_append.1 (List.isPrefixOf_iff_prefix.1 hhead) |>.symm
    · cases h
  · rintro rfl
    simp

@[simp]
theorem after?_append (head : String) (rest : List Char) : after? head (head.toList ++ rest) = some rest :=
  after?_eq_some_iff.2 rfl

theorem segment?_slash (cs : List Char) : segment? ('/' :: cs) = none := rfl

theorem segment?_cons {c : Char} (hc : c ≠ '/') (cs : List Char) :
    segment? (c :: cs) = some (c :: cs.takeWhile (· != '/'), cs.dropWhile (· != '/')) := by
  simp [segment?, hc]

theorem segment?_eq_some_iff {cs rest : List Char} {key : String} : segment? cs = some (key.toList, rest) ↔
    IsSegment key ∧ cs = key.toList ++ rest ∧ (rest = [] ∨ ∃ below, rest = '/' :: below) := by
  constructor
  · intro h
    unfold segment? at h
    dsimp only at h
    split at h
    · cases h
    · rename_i hsome
      obtain ⟨hkey, hrest⟩ := Prod.mk.inj (Option.some.inj h)
      refine ⟨⟨fun hempty => hsome ?_, fun hslash => ?_⟩, ?_, ?_⟩
      · rw [hkey, hempty]
        rfl
      · rw [← hkey] at hslash
        simpa using List.mem_takeWhile_imp hslash
      · rw [← hkey, ← hrest, List.takeWhile_append_dropWhile]
      · cases rest with
        | nil => exact .inl rfl
        | cons c below =>
          have hhead := List.head_dropWhile_not (· != '/') (by simp [hrest] : cs.dropWhile (· != '/') ≠ [])
          simp only [hrest, List.head_cons, bne_eq_false_iff_eq] at hhead
          exact .inr ⟨below, by rw [hhead]⟩
  · rintro ⟨⟨hsome, hunslashed⟩, rfl, hrest⟩
    have hall : ∀ c ∈ key.toList, (c != '/') = true := fun c hc => by
      rw [bne_iff_ne]
      rintro rfl
      exact hunslashed hc
    have htake : (key.toList ++ rest).takeWhile (· != '/') = key.toList := by
      rw [List.takeWhile_append_of_pos hall]
      rcases hrest with rfl | ⟨below, rfl⟩ <;> simp
    have hdrop : (key.toList ++ rest).dropWhile (· != '/') = rest := by
      rw [List.dropWhile_append_of_pos hall]
      rcases hrest with rfl | ⟨below, rfl⟩ <;> simp
    have hkey : key.toList ≠ [] := fun h => hsome (String.toList_eq_nil_iff.1 h)
    simp [segment?, htake, hdrop, hkey]

theorem atEnd_iff {cs : List Char} : atEnd cs = true ↔ cs = [] ∨ cs = ['\n'] := by
  simp [atEnd]

theorem atEnd_toList {tail : String} (htail : tail = "" ∨ tail = "\n") : atEnd tail.toList = true := by
  rcases htail with rfl | rfl <;> rfl

theorem attempts_append (tail : List Char) :
    "/attempts".toList ++ tail = '/' :: ("attempts".toList ++ tail) := rfl

theorem after?_attempts (tail : List Char) : after? "/attempts" ('/' :: ("attempts".toList ++ tail)) = some tail :=
  after?_append "/attempts" tail

/-! ### Patterns -/

/-- A part of a pattern. -/
inductive Part where
  /-- The text `s` as it stands. -/
  | text (s : String)
  /-- Characters other than slashes, one or more. -/
  | segment

/-- What may be left after a segment, the longest segment first. -/
def afterSegment : List Char → List (List Char)
  | [] => []
  | c :: cs => if c = '/' then [] else afterSegment cs ++ [cs]

/-- What may be left after a part, in the order in which the ways to match it are tried. -/
def Part.rests : Part → List Char → List (List Char)
  | text s, cs => (after? s cs).toList
  | segment, cs => afterSegment cs

/-- What may be left after several parts, in the order in which the ways to match them are tried. -/
def rests : List Part → List Char → List (List Char)
  | [], cs => [cs]
  | p :: ps, cs => (p.rests cs).flatMap (rests ps)

/-- A pattern for a path, from its beginning to its end, and what is put in the place of a match. -/
structure Pattern where
  /-- The parts, one after the other. -/
  parts : List Part
  /-- What is put in the place of a match. -/
  replacement : String

/-- The path with the match of `p` replaced, if there is one.  A line feed after the match is kept. -/
def Pattern.rewrite? (p : Pattern) (path : String) : Option String :=
  ((rests p.parts path.toList).find? atEnd).map fun rest => p.replacement ++ String.ofList rest

/-- The patterns of the paths with a key. -/
def patterns : List Pattern :=
  [⟨[.text "/payments/", .segment, .text "/attempts"], attemptsPath⟩, ⟨[.text "/payments/", .segment], paymentPath⟩]

/-- After the longest segment, `/attempts` either follows or does not; after a shorter one it cannot. -/
theorem flatMap_afterSegment (cs : List Char) :
    (afterSegment cs).flatMap (fun rest => (after? "/attempts" rest).toList) =
      ((segment? cs).bind fun x => after? "/attempts" x.2).toList := by
  induction cs with
  | nil => rfl
  | cons c cs ih =>
    by_cases hc : c = '/'
    · subst hc
      rfl
    · rw [afterSegment, if_neg hc, List.flatMap_append, ih, List.flatMap_singleton, segment?_cons hc, Option.bind_some]
      cases cs with
      | nil => rfl
      | cons d cs =>
        by_cases hd : d = '/'
        · subst hd
          simp [segment?_slash]
        · have hnone : after? "/attempts" (d :: cs) = none := by
            rw [Option.eq_none_iff_forall_ne_some]
            intro rest h
            exact hd (List.cons.inj (after?_eq_some_iff.1 h)).1
          simp [hnone, segment?_cons hd, hd]

/-- Only the longest segment can end the path, and it takes a line feed at the end with it. -/
theorem find?_afterSegment (cs : List Char) :
    (afterSegment cs).find? atEnd = ((segment? cs).map (·.2)).filter (·.isEmpty) := by
  induction cs with
  | nil => rfl
  | cons c cs ih =>
    by_cases hc : c = '/'
    · subst hc
      rfl
    · rw [afterSegment, if_neg hc, List.find?_append, ih, segment?_cons hc]
      cases cs with
      | nil => rfl
      | cons d cs =>
        by_cases hd : d = '/'
        · subst hd
          simp [segment?_slash, atEnd, Option.filter]
        · rw [segment?_cons hd]
          simp only [Option.map_some, ne_eq, hd, not_false_eq_true, bne_iff_ne, List.dropWhile_cons_of_pos]
          cases hrest : cs.dropWhile (· != '/') with
          | nil => rfl
          | cons e below =>
            have hlonger : cs ≠ [] := by
              rintro rfl
              cases hrest
            simp [atEnd, hlonger]

/-- `normalise` replaces the match of the first pattern that matches. -/
theorem normalise_eq_rewrite (path : String) :
    normalise path = (patterns.findSome? (·.rewrite? path)).getD path := by
  have hsingle : ∀ xs : List (List Char), xs.flatMap (fun rest => [rest]) = xs := fun xs => by simp
  unfold normalise patterns Pattern.rewrite?
  simp only [List.findSome?_cons, List.findSome?_nil, rests, Part.rests]
  cases after? "/payments/" path.toList with
  | none => rfl
  | some cs =>
    simp only [Option.toList_some, List.flatMap_singleton, hsingle, flatMap_afterSegment, find?_afterSegment,
      Option.bind_eq_bind, Option.bind_some]
    rcases segment? cs with _ | ⟨key, _ | ⟨c, rest⟩⟩
    · rfl
    · rfl
    · dsimp only [Option.bind_some]
      rcases after? "/attempts" (c :: rest) with _ | tail
      · rfl
      · by_cases htail : atEnd tail = true
        · simp only [Option.toList_some, List.find?_cons, htail, if_true]
          rfl
        · simp only [Option.toList_some, List.find?_cons, htail]
          rfl

/-! ### Normal paths -/

/-- The paths that name `key`: that of the payment, and that of its attempts, which a line feed may follow. -/
inductive Names (key : String) : String → Prop
  | payment : Names key ("/payments/" ++ key)
  | attempts {tail : String} (htail : tail = "" ∨ tail = "\n") : Names key ("/payments/" ++ key ++ "/attempts" ++ tail)

section

variable {key : String} (h : IsSegment key)

include h

theorem segment?_key : segment? key.toList = some (key.toList, []) :=
  segment?_eq_some_iff.2 ⟨h, (List.append_nil _).symm, .inl rfl⟩

theorem segment?_attempts (tail : List Char) :
    segment? (key.toList ++ ("/attempts".toList ++ tail)) = some (key.toList, "/attempts".toList ++ tail) :=
  segment?_eq_some_iff.2 ⟨h, rfl, .inr ⟨"attempts".toList ++ tail, rfl⟩⟩

theorem normalise_payment : normalise ("/payments/" ++ key) = paymentPath := by
  simp only [normalise, String.toList_append, after?_append, Option.bind_eq_bind, Option.bind_some, segment?_key h]

theorem normalise_attempts {tail : String} (htail : tail = "" ∨ tail = "\n") :
    normalise ("/payments/" ++ key ++ "/attempts" ++ tail) = attemptsPath ++ tail := by
  simp only [normalise, String.toList_append, List.append_assoc, after?_append, Option.bind_eq_bind, Option.bind_some,
    segment?_attempts h]
  simp only [attempts_append, after?_attempts, atEnd_toList htail, if_true, String.ofList_toList]

end

theorem normalise_eq_self {path : String} (h : ∀ key, IsSegment key → ¬Names key path) : normalise path = path := by
  unfold normalise
  cases hbelow : after? "/payments/" path.toList with
  | none => rfl
  | some below =>
    rw [after?_eq_some_iff] at hbelow
    rw [Option.bind_eq_bind, Option.bind_some]
    rcases hsegment : segment? below with _ | ⟨key, rest⟩
    · rfl
    · obtain ⟨hkey, hsplit, -⟩ := segment?_eq_some_iff.1 ((String.toList_ofList (l := key)).symm ▸ hsegment)
      rw [String.toList_ofList] at hsplit
      have hpath : path = "/payments/" ++ String.ofList key ++ String.ofList rest := by
        rw [← String.toList_inj]
        simp [hbelow, hsplit]
      rcases rest with _ | ⟨c, rest⟩
      · exact absurd (hpath ▸ by simpa using Names.payment) (h _ hkey)
      · dsimp only
        cases hattempts : after? "/attempts" (c :: rest) with
        | none => rfl
        | some tail =>
          dsimp only
          split
          · rename_i htail
            rw [after?_eq_some_iff.1 hattempts, String.ofList_append, String.ofList_toList,
              ← String.append_assoc] at hpath
            have hend : String.ofList tail = "" ∨ String.ofList tail = "\n" :=
              (atEnd_iff.1 htail).imp (congrArg String.ofList) (congrArg String.ofList)
            exact absurd (hpath ▸ .attempts hend) (h _ hkey)
          · rfl

/-- What it means that normal paths hide keys. -/
structure HidesKeys (normal : String → String) : Prop where
  /-- A path is made normal by the first pattern that matches it. -/
  by_pattern : ∀ path, normal path = (patterns.findSome? (·.rewrite? path)).getD path
  /-- All payments have the same normal path. -/
  payment : ∀ key, IsSegment key → normal ("/payments/" ++ key) = paymentPath
  /-- The attempts of all payments have the same normal path. -/
  attempts : ∀ key, IsSegment key → normal ("/payments/" ++ key ++ "/attempts") = attemptsPath
  /-- A line feed after the path of the attempts is kept. -/
  attempts_line : ∀ key, IsSegment key → normal ("/payments/" ++ key ++ "/attempts" ++ "\n") = attemptsPath ++ "\n"
  /-- Payments and their attempts have different normal paths. -/
  distinct : paymentPath ≠ attemptsPath
  /-- All other paths are left as they are. -/
  others : ∀ path, (∀ key, IsSegment key → ¬Names key path) → normal path = path
  /-- A normal path is its own normal path. -/
  idempotent : ∀ path, normal (normal path) = normal path

/-- The normal path of a payment or of its attempts does not depend on the key, and all other paths are left as they
are. -/
theorem normalise_hides_keys : HidesKeys normalise where
  by_pattern := normalise_eq_rewrite
  payment _ hkey := normalise_payment hkey
  attempts key hkey := by simpa using normalise_attempts hkey (.inl rfl)
  attempts_line _ hkey := normalise_attempts hkey (.inr rfl)
  distinct := by decide
  others _ := normalise_eq_self
  idempotent path := by
    -- the placeholder can be a key itself
    have hplaceholder : IsSegment "\x7bpayment_external_key\x7d" := ⟨by decide, by decide⟩
    by_cases hnames : ∃ key, IsSegment key ∧ Names key path
    · obtain ⟨key, hkey, hnames⟩ := hnames
      cases hnames with
      | payment =>
        rw [normalise_payment hkey]
        exact normalise_payment hplaceholder
      | attempts htail =>
        rw [normalise_attempts hkey htail]
        exact normalise_attempts hplaceholder htail
    · have hself := normalise_eq_self fun key hkey hpath => hnames ⟨key, hkey, hpath⟩
      rw [hself, hself]

/-- A key that ends with a line feed, or reads like the end of a path, is hidden like any other. -/
theorem hides_keys_of_line_feed : IsSegment "attempts\n" ∧ normalise ("/payments/" ++ "attempts\n") = paymentPath ∧
    normalise ("/payments/" ++ "attempts\n" ++ "/attempts" ++ "\n") = attemptsPath ++ "\n" := by
  have hkey : IsSegment "attempts\n" := ⟨by decide, by decide⟩
  exact ⟨hkey, normalise_hides_keys.payment _ hkey, normalise_hides_keys.attempts_line _ hkey⟩

end PaymentRetry.Api
