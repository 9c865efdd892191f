import LlamaTrade.AuthSessions

/-!
# Sessions end with a password change

A password change commits the new password and then writes a cut-off, the second it has computed
before. A token is cut off if it was issued in an earlier second. Where every token of an older
password was issued before the second of the cut-off, nothing is minted for an older password once
the cut-off is written, and tokens do not outlive the key of the cut-off, the tokens of older
passwords are not accepted after the change has returned, nor what is minted by refreshing them. A
token that was issued in the second of the change lives on.
-/

namespace LlamaTrade

/-- What the sessions of older passwords must not do: a token is unexpired when the cut-off is
asked for; a login and a refresh do not mint for a password older than one whose cut-off is
written; and a cut-off is later than the issue of every unexpired token of an older password. -/
def endsSessions (w : AuthWorld) : AuthAction → Bool
  | .askCutoff t =>
    match w.tasks t with
    | .notDenied token _ => w.unexpired token
    | _ => true
  | .mintLogin t =>
    match w.tasks t with
    | .loggingIn credential => w.cutGeneration ≤ credential
    | _ => true
  | .mint t =>
    match w.tasks t with
    | .rotating token _ => w.tokens[token]?.all fun claims => w.cutGeneration ≤ claims.credential
    | _ => true
  | .setCutoff t =>
    match w.tasks t with
    | .cutting generation cutoff =>
      w.tokens.all fun claims => max generation w.cutGeneration ≤ claims.credential ||
        claims.exp ≤ w.now || claims.iat < cutoff
    | _ => true
  | _ => true

/-- The unexpired tokens of passwords whose change has written its cut-off are cut off. -/
structure AuthWorld.CutsOff (w : AuthWorld) : Prop where
  cutOff : ∀ claims ∈ w.tokens, claims.credential < w.cutGeneration → w.now < claims.exp →
    ∃ cutoff expires, w.cutoff = some (cutoff, expires) ∧ claims.iat < cutoff ∧
      (claims.exp : ℚ) ≤ expires
  ended : ∀ claims ∈ w.tokens, claims.ended = true → claims.credential < w.cutGeneration
  short : ∀ claims ∈ w.tokens, (claims.exp : ℚ) ≤ w.now + userTtlSeconds
  tasks : ∀ t generation, w.tasks t = .cut generation → generation ≤ w.cutGeneration

section Steps

variable {life : Lifetimes} {w w' : AuthWorld} {action : AuthAction}

theorem exp_le_of_minted (hlife : life.access ≤ userTtlSeconds ∧ life.refresh ≤ userTtlSeconds)
    {now : ℚ} {credential : ℕ} {ended : Bool} {claims : AuthToken}
    (h : claims ∈ mintAccessRefresh life now credential ended) :
    (claims.exp : ℚ) ≤ now + userTtlSeconds := by
  simp only [mintAccessRefresh, List.mem_cons, List.not_mem_nil, or_false] at h
  obtain rfl | rfl := h
  · exact (Int.floor_le _).trans (by linarith [hlife.1])
  · exact (Int.floor_le _).trans (by linarith [hlife.2])

theorem credential_of_minted {now : ℚ} {credential : ℕ} {ended : Bool} {claims : AuthToken}
    (h : claims ∈ mintAccessRefresh life now credential ended) :
    claims.credential = credential ∧ claims.ended = ended := by
  simp only [mintAccessRefresh, List.mem_cons, List.not_mem_nil, or_false] at h
  obtain rfl | rfl := h
  · exact ⟨rfl, rfl⟩
  · exact ⟨rfl, rfl⟩

theorem ne_cut_of_move {t : ℕ} {old new : AuthPhase} (h : AuthMove w action t old new)
    (generation : ℕ) : new ≠ .cut generation := by
  cases h <;> simp

/-- A request moves on, and not to where a cut-off has been written. -/
theorem cut_of_update {tasks : ℕ → AuthPhase} {bound : ℕ}
    (h : ∀ t generation, tasks t = .cut generation → generation ≤ bound) {t : ℕ} {phase : AuthPhase}
    (hphase : ∀ generation, phase ≠ .cut generation) (r generation : ℕ)
    (hr : Function.update tasks t phase r = .cut generation) : generation ≤ bound := by
  by_cases hrt : r = t
  · subst hrt
    rw [Function.update_self] at hr
    exact absurd hr (hphase generation)
  · rw [Function.update_of_ne hrt] at hr
    exact h r generation hr

/-- A pair of tokens is minted for a password that is not cut off. -/
theorem cutsOff_minted (h : w.CutsOff)
    (hlife : life.access ≤ userTtlSeconds ∧ life.refresh ≤ userTtlSeconds) {t credential : ℕ}
    (hcredential : w.cutGeneration ≤ credential) (refreshed : List ℕ) :
    ({ w.setTask t .done with
      tokens := w.tokens ++ mintAccessRefresh life w.now credential false
      refreshed } : AuthWorld).CutsOff := by
  refine ⟨fun claims hclaims => ?_, fun claims hclaims => ?_, fun claims hclaims => ?_,
    cut_of_update h.tasks (by simp)⟩
  · obtain hold | hnew := List.mem_append.mp hclaims
    · exact h.cutOff claims hold
    · intro hlt
      rw [(credential_of_minted hnew).1] at hlt
      exact absurd hlt (Nat.not_lt.mpr hcredential)
  · obtain hold | hnew := List.mem_append.mp hclaims
    · exact h.ended claims hold
    · intro hended
      rw [(credential_of_minted hnew).2] at hended
      cases hended
  · obtain hold | hnew := List.mem_append.mp hclaims
    · exact h.short claims hold
    · exact exp_le_of_minted hlife hnew

theorem not_ended_of_le (h : w.CutsOff) {claims : AuthToken} (hclaims : claims ∈ w.tokens)
    (hle : w.cutGeneration ≤ claims.credential) : claims.ended = false := by
  by_contra hended
  have hlt := h.ended claims hclaims (by simpa using hended)
  omega

theorem cutsOff_step (hlife : life.access ≤ userTtlSeconds ∧ life.refresh ≤ userTtlSeconds)
    (h : w.CutsOff) (hok : endsSessions w action = true) (hstep : authStep life w action = some w') :
    w'.CutsOff := by
  cases authStep_effect hstep with
  | @waited seconds hseconds =>
    refine ⟨fun claims hclaims hlt hnow => ?_, h.ended, fun claims hclaims => ?_, h.tasks⟩
    · exact h.cutOff claims hclaims hlt ((le_add_of_nonneg_right hseconds).trans_lt hnow)
    · have hshort := h.short claims hclaims
      show (claims.exp : ℚ) ≤ w.now + seconds + userTtlSeconds
      linarith
  | @moved _ t phase hmove =>
    exact ⟨h.cutOff, h.ended, h.short, cut_of_update h.tasks (ne_cut_of_move hmove)⟩
  | @loggedIn t credential htask =>
    rw [endsSessions, htask] at hok
    exact cutsOff_minted h hlife (of_decide_eq_true hok) w.refreshed
  | accepted =>
    refine ⟨h.cutOff, h.ended, h.short, cut_of_update h.tasks fun generation => ?_⟩
    split_ifs <;> simp
  | denied => exact ⟨h.cutOff, h.ended, h.short, cut_of_update h.tasks (by simp)⟩
  | logoutDenied => exact ⟨h.cutOff, h.ended, h.short, cut_of_update h.tasks (by simp)⟩
  | @minted t token seen claims htask hclaims =>
    simp only [endsSessions, htask, hclaims, Option.all_some, decide_eq_true_eq] at hok
    rw [not_ended_of_le h (List.mem_of_getElem? hclaims) hok]
    exact cutsOff_minted h hlife hok (token :: w.refreshed)
  | loggedOut => exact ⟨h.cutOff, h.ended, h.short, cut_of_update h.tasks (by simp)⟩
  | committed => exact ⟨h.cutOff, h.ended, h.short, cut_of_update h.tasks (by simp)⟩
  | @cut t generation cutoff htask =>
    simp only [endsSessions, htask, List.all_eq_true, Bool.or_eq_true, decide_eq_true_eq] at hok
    refine ⟨fun claims hclaims hlt hnow => ?_, fun claims hclaims hended => ?_, h.short,
      fun r g hr => ?_⟩
    · obtain (hle | hexpired) | hiat := hok claims hclaims
      · exact absurd hlt (Nat.not_lt.mpr hle)
      · exact absurd hnow (not_lt.mpr hexpired)
      · exact ⟨cutoff, _, rfl, hiat, h.short claims hclaims⟩
    · exact (h.ended claims hclaims hended).trans_le (le_max_right _ _)
    · by_cases hrt : r = t
      · subst hrt
        obtain rfl : generation = g := by simpa [AuthWorld.setTask] using hr
        exact le_max_left _ _
      · have hold : w.tasks r = .cut g := by simpa [AuthWorld.setTask, hrt] using hr
        exact (h.tasks r g hold).trans (le_max_right _ _)
  | @returned t generation htask =>
    have hgeneration := h.tasks t generation htask
    refine ⟨fun claims hclaims => ?_, fun claims hclaims hended => ?_, fun claims hclaims => ?_,
      cut_of_update h.tasks (by simp)⟩
    · obtain ⟨old, hold, rfl⟩ := List.mem_map.mp hclaims
      exact h.cutOff old hold
    · obtain ⟨old, hold, rfl⟩ := List.mem_map.mp hclaims
      obtain hbefore | hlt : old.ended = true ∨ old.credential < generation := by
        simpa using hended
      · exact h.ended old hold hbefore
      · exact hlt.trans_le hgeneration
    · obtain ⟨old, hold, rfl⟩ := List.mem_map.mp hclaims
      exact h.short old hold

theorem AuthWorld.New.cutsOff (h : w.New) : w.CutsOff := by
  refine ⟨?_, ?_, ?_, fun t generation ht => ?_⟩
  · simp [h.tokens]
  · simp [h.tokens]
  · simp [h.tokens]
  · rw [h.tasks t] at ht
    cases ht

/-- An ended token does not pass its check. -/
theorem isCutOff_of_ended (h : w.CutsOff) {token : ℕ} {claims : AuthToken}
    (hclaims : w.tokens[token]? = some claims) (hended : claims.ended = true)
    (hunexpired : w.unexpired token = true) : w.isCutOff token = true := by
  have hmem := List.mem_of_getElem? hclaims
  have hnow : w.now < claims.exp := by
    have hlater := of_decide_eq_true (Bool.and_eq_true_iff.mp hunexpired).2
    simpa only [AuthWorld.expOf, hclaims, Option.elim_some] using hlater
  obtain ⟨cutoff, expires, hcutoff, hiat, hexpires⟩ :=
    h.cutOff claims hmem (h.ended claims hmem hended) hnow
  simp [AuthWorld.isCutOff, hcutoff, hclaims, hiat, hnow.trans_le hexpires]

/-- An ended token stays ended and is not accepted. -/
theorem ended_step (h : w.CutsOff) (hok : endsSessions w action = true)
    (hstep : authStep life w action = some w') {token : ℕ}
    (hended : ∃ claims, w.tokens[token]? = some claims ∧ claims.ended = true) :
    (∃ claims, w'.tokens[token]? = some claims ∧ claims.ended = true) ∧
      w'.accepted.count token = w.accepted.count token := by
  obtain ⟨claims, hclaims, hflag⟩ := hended
  have hlength : token < w.tokens.length := (List.getElem?_eq_some_iff.mp hclaims).1
  cases authStep_effect hstep with
  | loggedIn =>
    refine ⟨⟨claims, ?_, hflag⟩, rfl⟩
    exact (List.getElem?_append_left hlength).trans hclaims
  | minted =>
    refine ⟨⟨claims, ?_, hflag⟩, rfl⟩
    exact (List.getElem?_append_left hlength).trans hclaims
  | @accepted t x seen htask hpasses =>
    refine ⟨⟨claims, hclaims, hflag⟩, List.count_cons_of_ne ?_⟩
    rintro rfl
    rw [endsSessions, htask] at hok
    rw [isCutOff_of_ended h hclaims hflag hok] at hpasses
    cases hpasses
  | @returned t generation _ =>
    refine ⟨⟨{ claims with ended := claims.ended || claims.credential < generation }, ?_, ?_⟩, rfl⟩
    · simp [AuthWorld.setTask, AuthWorld.endOlder, hclaims]
    · simp [hflag]
  | _ => exact ⟨⟨claims, hclaims, hflag⟩, rfl⟩

end Steps

/-- **A password change ends every earlier session.** In every run whose steps meet the condition,
with lifetimes of at most seven days: a token that goes back to an older password and existed when
the change returned, or was minted by refreshing such a token, is not accepted any more. -/
theorem password_change_ends_sessions {life : Lifetimes} {w w₁ w₂ : AuthWorld}
    {before after : List AuthAction}
    (hlife : life.access ≤ userTtlSeconds ∧ life.refresh ≤ userTtlSeconds) (hnew : w.New)
    (hmeets : Transition.Meets (authStep life) (fun w action => endsSessions w action = true) w
      (before ++ after))
    (hbefore : Transition.run (authStep life) w before = some w₁)
    (hafter : Transition.run (authStep life) w₁ after = some w₂) {token : ℕ} {claims : AuthToken}
    (hclaims : w₁.tokens[token]? = some claims) (hended : claims.ended = true) :
    w₂.accepted.count token = w₁.accepted.count token := by
  have hfirst : w₁.CutsOff :=
    Transition.run_invariant (fun _ _ _ h hok hstep => cutsOff_step hlife h hok hstep)
      hnew.cutsOff (Transition.meets_left hmeets) hbefore
  have hkept : w₂.CutsOff ∧ (∃ claims, w₂.tokens[token]? = some claims ∧ claims.ended = true) ∧
      w₂.accepted.count token = w₁.accepted.count token :=
    Transition.run_invariant
      (I := fun w => w.CutsOff ∧ (∃ claims, w.tokens[token]? = some claims ∧ claims.ended = true) ∧
        w.accepted.count token = w₁.accepted.count token)
      (fun _ _ _ h hok hstep =>
        have hnext := ended_step h.1 hok hstep h.2.1
        ⟨cutsOff_step hlife h.1 hok hstep, hnext.1, hnext.2.trans h.2.2⟩)
      ⟨hfirst, ⟨claims, hclaims, hended⟩, rfl⟩ (Transition.meets_of_append hmeets hbefore) hafter
  exact hkept.2.2

namespace Sample

/-- A login, and a password change a number of seconds later. -/
def loginAndChange (seconds : ℚ) : List AuthAction :=
  [.login 0, .mintLogin 0, .wait seconds, .change 1, .commitPassword 1, .computeCutoff 1,
    .setCutoff 1, .returnChange 1]

/-- The refresh token of the login is presented. -/
def presentRefresh : List AuthAction := [.present 2 1, .askDenylist 2, .askCutoff 2]

end Sample

theorem password_change_ends_sessions_later :
    ∃ w₁ w₂, Transition.run (authStep Sample.tokenLifetimes) Sample.noSessions
        (Sample.loginAndChange 5) = some w₁ ∧
      Transition.run (authStep Sample.tokenLifetimes) w₁ Sample.presentRefresh = some w₂ ∧
      w₂.accepted.count 1 = w₁.accepted.count 1 := by
  have hmeets : Transition.Meets (authStep Sample.tokenLifetimes)
      (fun w action => endsSessions w action = true) Sample.noSessions
      (Sample.loginAndChange 5 ++ Sample.presentRefresh) := by decide +kernel
  have hends : (Transition.run (authStep Sample.tokenLifetimes) Sample.noSessions
      (Sample.loginAndChange 5 ++ Sample.presentRefresh)).isSome = true := by decide +kernel
  have hmiddle : (Transition.run (authStep Sample.tokenLifetimes) Sample.noSessions
      (Sample.loginAndChange 5)).map (·.tokens[1]?) =
        some (some ⟨.refresh, 1000, 605800, 0, true⟩) := by decide +kernel
  obtain ⟨w₁, hbefore, htoken⟩ := Option.map_eq_some_iff.mp hmiddle
  obtain ⟨w₂, hrun⟩ := Option.isSome_iff_exists.mp hends
  rw [Transition.run_append, hbefore, Option.bind_some] at hrun
  exact ⟨w₁, w₂, hbefore, hrun, password_change_ends_sessions (by decide +kernel)
    Sample.noSessions_new hmeets hbefore hrun htoken rfl⟩

/-- A token that was issued in the second of the password change is accepted after it. -/
theorem token_of_same_second_survives :
    (Transition.run (authStep Sample.tokenLifetimes) Sample.noSessions
        (Sample.loginAndChange (1 / 2))).map (fun w => (w.tokens[1]?.map (·.ended), w.accepted)) =
      some (some true, []) ∧
    (Transition.run (authStep Sample.tokenLifetimes) Sample.noSessions
        (Sample.loginAndChange (1 / 2) ++ Sample.presentRefresh)).map (·.accepted) = some [1] := by
  constructor <;> decide +kernel

end LlamaTrade
